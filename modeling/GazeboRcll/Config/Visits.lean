import GazeboRcll.Config.NodeKind

/-!
# The entries that are looked at

`read_config_doc` goes through the entries of a map in their order. An entry whose node is there
already sets the text of this node, and what is in it is not looked at. Any other entry makes its
node. So, as long as nothing is thrown, the keys alone decide which entries are looked at, and
which of them make their node (`Entries.visits`). The kind of the node that an entry has found
decides whether anything is thrown for it (`kindAt`).

* `Nodes.readEntries_eq_ok`: the tree that there is after reading.
* `Nodes.readEntries_eq_error`: the entry at which reading has stopped.
-/

namespace GazeboRcll

namespace Item

def isScalar (i : Item) : Bool := i.value.elim false YamlLeaf.isScalar

def text (i : Item) : String := i.value.elim "" YamlLeaf.text

/-- The kind of the node that is made for the entry. -/
def kind (i : Item) : NodeKind := i.value.elim .other YamlLeaf.kind

/-- The node that is made for the entry, without what it contains. -/
def Makes (i : Item) (n : Node) : Prop :=
  match i.value with
  | some value => value.read (nameAt i.path) = .ok n
  | none => n = Node.newMap

end Item

/-- A path has been used, also as the beginning of another one. -/
def Used (P : List (List String)) (q : List String) : Prop := ∃ x ∈ P, q <+: x

instance (P : List (List String)) (q : List String) : Decidable (Used P q) :=
  inferInstanceAs (Decidable (∃ x ∈ P, q <+: x))

/-- An entry that `read_config_doc` looks at, and whether it has to make the node for it. -/
structure Visit where
  item : Item
  made : Bool

namespace Visit

def path (v : Visit) : List String := v.item.path

/-- The key has an element, and a list that a node is made for has only strings. -/
structure Fit (v : Visit) : Prop where
  named : keyPath v.item.key ≠ []
  strings : v.made = true → ∀ value, v.item.value = some value → value.OfStrings

/-- A `fawkes::Exception` is thrown for the entry, where the node that it finds is of this kind:
the scalar that a node is made of cannot be read, or the entry is no scalar and finds one, or its
text cannot be set. -/
def Refused (k : NodeKind) (v : Visit) : Prop :=
  if v.made then
    ∃ tag text, v.item.value = some (.scalar tag text) ∧ ¬(YamlLeaf.scalar tag text).Readable
  else k = .scalar ∧ v.item.isScalar = false ∨ ¬k.Takes v.item.text

/-- Nothing is thrown for the entry. -/
def Passes (k : NodeKind) (v : Visit) : Prop := v.Fit ∧ ¬v.Refused k

/-- The kind of the node at `q` after the visit, with the paths `P` used before. A node becomes a
map when it gets a child. -/
def kindAfter (P : List (List String)) (q : List String) (k : NodeKind) (v : Visit) : NodeKind :=
  if v.path = q then if v.made then v.item.kind else k.set
  else if q <+: v.path ∧ ¬Used P (v.path.take (q.length + 1)) then .other
  else k

end Visit

/-- The kind of the node at `q` after some visits. -/
def kindAt (q : List String) (P : List (List String)) (k : NodeKind) : List Visit → NodeKind
  | [] => k
  | v :: vs => kindAt q (P ++ [v.path]) (v.kindAfter P q k) vs

/-- Nothing is thrown in some visits, where nodes of the kinds `K` are there before. -/
def Passed (P : List (List String)) (K : List String → NodeKind) : List Visit → Prop
  | [] => True
  | v :: vs =>
    v.Passes (K v.path) ∧ Passed (P ++ [v.path]) (fun q => v.kindAfter P q (K q)) vs

/-- The entries that are looked at, in their order, with the paths `P` used before. -/
def Entries.visits (pre : List String) (above : List (List String)) (keys : List String)
    (P : List (List String)) : Entries → List Visit
  | .nil => []
  | .leaf key value rest =>
    let v : Visit :=
      ⟨⟨pre ++ keyPath key, above, keys, key, some value⟩, ¬Used P (pre ++ keyPath key)⟩
    v :: visits pre above keys (P ++ [v.path]) rest
  | .map key entries rest =>
    let v : Visit := ⟨⟨pre ++ keyPath key, above, keys, key, none⟩, ¬Used P (pre ++ keyPath key)⟩
    -- what is in a map whose node is there already is not looked at
    let inside :=
      if v.made then visits v.path (v.path :: above) (keys ++ [key]) (P ++ [v.path]) entries
      else []
    v :: (inside ++ visits pre above keys (P ++ v.path :: inside.map Visit.path) rest)

/-! ## Used paths -/

section

variable {P Q : List (List String)} {p q : List String}

/-- Paths are used by one of two lists. -/
theorem used_append : Used (P ++ Q) p ↔ Used P p ∨ Used Q p := by
  simp only [Used, List.mem_append, or_and_right, exists_or]

theorem used_singleton : Used [q] p ↔ p <+: q := by
  simp only [Used, List.mem_singleton, exists_eq_left]

theorem not_used_nil : ¬Used [] p := fun ⟨_, hx, _⟩ => nomatch hx

/-- What goes to a node goes to the nodes above it. -/
theorem Used.mono (h : Used P q) (hp : p <+: q) : Used P p := by
  obtain ⟨x, hx, hq⟩ := h
  exact ⟨x, hx, hp.trans hq⟩

/-- Paths that all begin with `q` use what is below `q`, and what is above. -/
theorem prefix_or_prefix_of_used (hQ : ∀ x ∈ Q, q <+: x) (h : Used Q p) : p <+: q ∨ q <+: p := by
  obtain ⟨x, hx, hp⟩ := h
  exact List.prefix_or_prefix_of_prefix hp (hQ x hx)

theorem take_succ_of_eq {k : String} {r : List String} (h : q = p ++ k :: r) :
    q.take (p.length + 1) = p ++ [k] := by
  rw [h, List.take_append]
  simp

end

/-! ## Kinds after some visits -/

section

variable {P : List (List String)} {K : List String → NodeKind} {q : List String} {k : NodeKind}
  {v : Visit} {vs ws : List Visit}

/-- Visits change a node one after the other. -/
theorem kindAt_append (q : List String) (P : List (List String)) (k : NodeKind)
    (vs ws : List Visit) :
    kindAt q P k (vs ++ ws) = kindAt q (P ++ vs.map Visit.path) (kindAt q P k vs) ws := by
  induction vs generalizing P k with
  | nil => rw [List.map_nil, List.append_nil]; rfl
  | cons v vs ih =>
    rw [List.cons_append, kindAt, ih, List.map_cons, ← List.append_cons]
    rfl

/-- Nothing is thrown in the first visits, nor in those after them. -/
theorem passed_append :
    Passed P K (vs ++ ws) ↔
      Passed P K vs ∧ Passed (P ++ vs.map Visit.path) (fun q => kindAt q P (K q) vs) ws := by
  induction vs generalizing P K with
  | nil => rw [List.map_nil, List.append_nil]; exact (and_iff_right trivial).symm
  | cons v vs ih =>
    rw [List.cons_append, Passed, Passed, ih, List.map_cons, ← List.append_cons, and_assoc]
    rfl

/-- Visits in which nothing is thrown are fit. -/
theorem Passed.fit (h : Passed P K vs) : ∀ v ∈ vs, v.Fit := by
  induction vs generalizing P K with
  | nil => nofun
  | cons w vs ih => exact List.forall_mem_cons.mpr ⟨h.1.1, ih h.2⟩

/-- A node that was made is of the kind of the entry. -/
theorem Visit.kindAfter_made (P : List (List String)) (k : NodeKind) (i : Item) :
    (Visit.mk i true).kindAfter P i.path k = i.kind := by
  rw [kindAfter, if_pos (show path ⟨i, true⟩ = i.path from rfl), if_pos rfl]

/-- A visit that does not use the path does not change the node. -/
theorem Visit.kindAfter_of_aside (h : ¬q <+: v.path) : v.kindAfter P q k = k := by
  have hne : v.path ≠ q := by
    rintro rfl
    exact h (List.prefix_refl _)
  rw [kindAfter, if_neg hne, if_neg fun hpre => h hpre.1]

/-- A visit that finds the next node on its path does not change the node. -/
theorem Visit.kindAfter_of_used {x : String} {r : List String} (hpath : v.path = q ++ x :: r)
    (h : Used P (q ++ [x])) : v.kindAfter P q k = k := by
  have hne : v.path ≠ q := by
    rw [hpath]
    exact fun heq => nomatch List.append_right_eq_self.mp heq
  rw [kindAfter, if_neg hne, if_neg]
  rintro ⟨-, hnot⟩
  exact hnot (take_succ_of_eq hpath ▸ h)

/-- Visits below a node that is there do not change other nodes. -/
theorem kindAt_aside {p : List String} (hall : ∀ v ∈ vs, q <+: v.path) (hused : Used P q)
    (hp : ¬q <+: p) : kindAt p P k vs = k := by
  induction vs generalizing P k with
  | nil => rfl
  | cons v vs ih =>
    obtain ⟨hv, hvs⟩ := List.forall_mem_cons.mp hall
    rw [kindAt, ih hvs (used_append.mpr (.inl hused))]
    rcases Node.path_cases p v.path with ⟨r, rfl⟩ | ⟨x, r, hx⟩ | ⟨hnot, -⟩
    · exact absurd (hv.trans (List.prefix_append _ _)) hp
    · refine Visit.kindAfter_of_used hx (hused.mono ?_)
      -- `p` is above `q`, and so is its child on the path
      have hpre : p ++ [x] <+: v.path := ⟨r, by rw [hx, ← List.append_cons]⟩
      rcases List.prefix_or_prefix_of_prefix hpre hv with hle | hge
      · exact hle
      · rcases List.prefix_concat_iff.mp hge with heq | hpq
        · exact heq ▸ List.prefix_refl _
        · exact absurd hpq hp
    · exact Visit.kindAfter_of_aside hnot

end

/-- How many of the paths have `q` as their beginning. -/
def usesOf (q : List String) (P : List (List String)) : ℕ := P.countP fun x => q.isPrefixOf x

section

variable {P Q : List (List String)} {q x : List String}

theorem usesOf_append (q : List String) (P Q : List (List String)) :
    usesOf q (P ++ Q) = usesOf q P + usesOf q Q := List.countP_append

theorem usesOf_eq_zero_iff : usesOf q P = 0 ↔ ¬ Used P q := by
  simp [usesOf, Used, List.countP_eq_zero]

theorem usesOf_pos (hx : x ∈ P) (h : q <+: x) : 0 < usesOf q P :=
  List.countP_pos_iff.mpr ⟨x, hx, List.isPrefixOf_iff_prefix.mpr h⟩

end

namespace Node

/-! ## The nodes after reading -/

variable {t t' u c : Node} {key text : String} {isScalar : Bool} {value : YamlLeaf}
  {entries rest : Entries} {fresh : String → Except ConfigError Node} {e : ConfigError}
  {pre q : List String} {above : List (List String)} {keys : List String}
  {P Q : List (List String)} {K : List String → NodeKind} {v : Visit} {vs ws : List Visit}

/-- The nodes below the one with the path `pre` are those that the paths `P` need, and they are of
the kinds `K`. -/
structure Nodes (t : Node) (pre : List String) (P : List (List String))
    (K : List String → NodeKind) : Prop where
  isSome_iff : ∀ p, p ≠ [] → ((t.valueAt p).isSome = true ↔ Used P (pre ++ p))
  kind : ∀ p v, t.valueAt p = some v → v.kind = K (pre ++ p)

/-- A node without children. -/
theorem nodes_childless {w : NodeValue} (hnew : ¬Used P q) (hw : w.kind = K q) :
    Nodes ⟨w, .nil⟩ q (P ++ [q]) K where
  isSome_iff p hp := by
    have hchild : ¬Used (P ++ [q]) (q ++ p) := by
      rw [used_append, used_singleton]
      rintro (hused | hpre)
      · exact hnew (hused.mono (List.prefix_append q p))
      · have hlen := hpre.length_le
        rw [List.length_append] at hlen
        exact hp (List.length_eq_zero_iff.mp (by omega))
    obtain ⟨k, p, rfl⟩ := List.exists_cons_of_ne_nil hp
    exact iff_of_false nofun hchild
  kind p x hx := by
    cases p with
    | nil =>
      cases hx
      rw [List.append_nil]
      exact hw
    | cons k p => cases hx

/-- A new tree has no nodes. -/
theorem nodes_new : Nodes new [] [] fun _ => .other where
  isSome_iff p hp := by
    obtain ⟨k, p, rfl⟩ := List.exists_cons_of_ne_nil hp
    exact iff_of_false nofun not_used_nil
  kind p x hx := by
    cases p with
    | nil =>
      cases hx
      rfl
    | cons k p => cases hx

namespace Nodes

/-- A node is made when there is none. -/
theorem not_used_iff (h : Nodes t pre P K) (hq : q ≠ []) :
    ¬Used P (pre ++ q) ↔ t.valueAt q = none := by
  rw [← h.isSome_iff q hq, Option.not_isSome_iff_eq_none]

/-- Whether an entry that finds its node is refused is seen from the node. -/
theorem refused_iff (h : Nodes t pre P K) {w : NodeValue} (hw : t.valueAt q = some w)
    (hpath : v.path = pre ++ q) (hmade : v.made = false) :
    v.Refused (K v.path) ↔
      w.kind = .scalar ∧ v.item.isScalar = false ∨ ¬w.kind.Takes v.item.text := by
  rw [Visit.Refused, hmade, if_neg Bool.false_ne_true, hpath, ← h.kind q w hw]

/-- A new node is there with what it holds and with the nodes above it. -/
theorem isSome_grafted (h : Nodes t pre P K) (hg : Grafted t t' q c)
    (hc : ∀ p, p ≠ [] →
      ((c.valueAt p).isSome = true ↔ Used (P ++ [pre ++ q] ++ Q) (pre ++ q ++ p)))
    (hbelow : ∀ x ∈ Q, pre ++ q <+: x) {p : List String} (hp : p ≠ []) :
    (t'.valueAt p).isSome = true ↔ Used (P ++ (pre ++ q) :: Q) (pre ++ p) := by
  have hself : Used (P ++ (pre ++ q) :: Q) (pre ++ q) :=
    ⟨pre ++ q, List.mem_append_right P List.mem_cons_self, List.prefix_refl _⟩
  -- the path is below that of the new node, above it or beside it
  rcases path_cases p q with ⟨r, rfl⟩ | ⟨k, r, hr⟩ | ⟨hpq, hqp⟩
  · rw [hg.below, ← List.append_assoc]
    by_cases hr : r = []
    · subst hr
      rw [List.append_nil]
      exact iff_of_true rfl hself
    · rw [hc r hr, ← List.append_cons]
  · rw [hg.above p k r hr]
    exact iff_of_true rfl
      (hself.mono ((List.prefix_append_right_inj pre).mpr ⟨k :: r, hr.symm⟩))
  · rw [hg.aside p hpq hqp, h.isSome_iff p hp, used_append]
    refine ⟨Or.inl, fun hused => hused.resolve_right fun hused => ?_⟩
    have hall : ∀ x ∈ (pre ++ q) :: Q, pre ++ q <+: x :=
      List.forall_mem_cons.mpr ⟨List.prefix_refl _, hbelow⟩
    rcases prefix_or_prefix_of_used hall hused with hpre | hpre
    · exact hpq ((List.prefix_append_right_inj pre).mp hpre)
    · exact hqp ((List.prefix_append_right_inj pre).mp hpre)

/-- Above a new node there are maps, where there was nothing before, and the nodes that were
there. -/
theorem kind_above (h : Nodes t pre P K) (hg : Grafted t t' q c) {p r : List String} {k : String}
    (hr : q = p ++ k :: r) (hpath : v.path = pre ++ p ++ k :: r) {w : NodeValue}
    (hw : t'.valueAt p = some w) : w.kind = v.kindAfter P (pre ++ p) (K (pre ++ p)) := by
  have hk : p ++ [k] ≠ [] := List.append_ne_nil_of_right_ne_nil _ (List.cons_ne_nil k [])
  rw [hg.above p k r hr] at hw
  cases hnext : t.valueAt (p ++ [k]) with
  | some x =>
    -- the next node on the path is there, so that this one stays as it is
    rw [hnext] at hw
    obtain ⟨y, hy⟩ := KeyTree.valueAt_of_prefix (List.prefix_append p [k]) hnext
    rw [hy] at hw
    cases hw
    have hused : Used P (pre ++ p ++ [k]) := by
      rw [List.append_assoc, ← h.isSome_iff _ hk, hnext]
      rfl
    rw [Visit.kindAfter_of_used hpath hused]
    exact h.kind p _ hy
  | none =>
    rw [hnext] at hw
    cases hw
    -- the last node that was there: it becomes a map
    have hnew : ¬Used P (pre ++ p ++ [k]) := by
      rw [List.append_assoc, h.not_used_iff hk]
      exact hnext
    have hne : v.path ≠ pre ++ p := by
      rw [hpath]
      exact fun heq => nomatch List.append_right_eq_self.mp heq
    rw [Visit.kindAfter, if_neg hne, take_succ_of_eq hpath, if_pos]
    · rfl
    · exact ⟨⟨k :: r, hpath.symm⟩, hnew⟩

/-- The node of an entry, and the entry has used no other paths than those below its own. -/
theorem made (h : Nodes t pre P K) (hpath : v.path = pre ++ q) (hg : Grafted t t' q c)
    (hc : Nodes c (pre ++ q) (P ++ [pre ++ q] ++ vs.map Visit.path)
      fun x => kindAt x (P ++ [pre ++ q]) (v.kindAfter P x (K x)) vs)
    (hbelow : ∀ w ∈ vs, pre ++ q <+: w.path) :
    Nodes t' pre (P ++ (v :: vs).map Visit.path) fun x => kindAt x P (K x) (v :: vs) := by
  rw [List.map_cons, hpath]
  refine ⟨fun p => h.isSome_grafted hg hc.isSome_iff (List.forall_mem_map.mpr hbelow),
    fun p w hw => ?_⟩
  -- outside the new node the visits below it change nothing
  have haside : ¬pre ++ q <+: pre ++ p →
      kindAt (pre ++ p) P (K (pre ++ p)) (v :: vs) = v.kindAfter P (pre ++ p) (K (pre ++ p)) := by
    intro hnot
    rw [kindAt, hpath]
    have hused : Used (P ++ [pre ++ q]) (pre ++ q) :=
      used_append.mpr (.inr (used_singleton.mpr (List.prefix_refl _)))
    exact kindAt_aside hbelow hused hnot
  rcases path_cases p q with ⟨r, rfl⟩ | ⟨k, r, hr⟩ | ⟨hpq, hqp⟩
  · rw [hg.below] at hw
    rw [kindAt, hpath, ← List.append_assoc]
    exact hc.kind r w hw
  · have hnot : ¬pre ++ q <+: pre ++ p := by
      rw [List.prefix_append_right_inj]
      intro hpre
      have hlen := hpre.length_le
      rw [hr, List.length_append, List.length_cons] at hlen
      omega
    rw [haside hnot]
    exact h.kind_above hg hr (by rw [hpath, hr, List.append_assoc]) hw
  · have hqp' : ¬pre ++ q <+: pre ++ p := by rwa [List.prefix_append_right_inj]
    have hpq' : ¬pre ++ p <+: v.path := by rwa [hpath, List.prefix_append_right_inj]
    rw [haside hqp', Visit.kindAfter_of_aside hpq']
    rw [hg.aside p hpq hqp] at hw
    exact h.kind p w hw

/-- A node that is there keeps its place. -/
theorem found (h : Nodes t pre P K) (hq : q ≠ []) {w w' : NodeValue} (hw : t.valueAt q = some w)
    (hsame : ∀ p, p ≠ q → t'.valueAt p = t.valueAt p) (hw' : t'.valueAt q = some w')
    (hkind : w'.kind = w.kind.set) (hpath : v.path = pre ++ q) (hmade : v.made = false) :
    Nodes t' pre (P ++ [v].map Visit.path) fun x => kindAt x P (K x) [v] := by
  -- no node is added
  have hused : Used P (pre ++ q) := by
    rw [← h.isSome_iff q hq, hw]
    rfl
  refine ⟨fun p hp => ?_, fun p x hx => ?_⟩
  · have hold : Used (P ++ [v].map Visit.path) (pre ++ p) ↔ Used P (pre ++ p) := by
      rw [List.map_singleton, hpath, used_append, used_singleton]
      exact or_iff_left_of_imp hused.mono
    rw [hold, ← h.isSome_iff p hp]
    by_cases heq : p = q
    · rw [heq, hw, hw']
      exact Iff.rfl
    · rw [hsame p heq]
  · show x.kind = v.kindAfter P (pre ++ p) (K (pre ++ p))
    by_cases heq : p = q
    · subst heq
      rw [hw'] at hx
      cases hx
      rw [Visit.kindAfter, if_pos hpath, hmade, if_neg Bool.false_ne_true, ← h.kind p w hw]
      exact hkind
    · rw [hsame p heq] at hx
      rw [h.kind p x hx]
      rcases path_cases (pre ++ p) v.path with ⟨r, hr⟩ | ⟨k, r, hr⟩ | ⟨hnot, -⟩
      · rw [hpath, List.append_assoc, List.append_cancel_left_eq] at hr
        cases r with
        | nil => exact absurd (hr.trans (List.append_nil q)) heq
        | cons k r =>
          refine (Visit.kindAfter_of_aside fun hpre => ?_).symm
          have hlen := hpre.length_le
          rw [hpath, hr] at hlen
          simp only [List.length_append, List.length_cons] at hlen
          omega
      · refine (Visit.kindAfter_of_used hr (hused.mono ⟨r, ?_⟩)).symm
        rw [← hpath, hr, ← List.append_cons]
      · exact (Visit.kindAfter_of_aside hnot).symm

end Nodes

/-! ## One visit after the other -/

/-- The entries `vs` were read into the tree `t`, with the paths `P` used before and nodes of the
kinds `K`. -/
structure VisitsRead (t t' : Node) (pre : List String) (P : List (List String))
    (K : List String → NodeKind) (vs : List Visit) : Prop where
  below : ∀ v ∈ vs, pre <+: v.path
  passed : Passed P K vs
  nodes : Nodes t' pre (P ++ vs.map Visit.path) fun q => kindAt q P (K q) vs
  same : ∀ p w, t.valueAt p = some w → ¬Used (vs.map Visit.path) (pre ++ p) →
    t'.valueAt p = some w
  value : ∀ v ∈ vs, ¬Used P v.path → usesOf v.path (vs.map Visit.path) = 1 →
    ∀ p, v.path = pre ++ p → ∃ n, v.item.Makes n ∧ t'.valueAt p = some n.value

namespace VisitsRead

theorem nil (h : Nodes t pre P K) : VisitsRead t t pre P K [] where
  below := nofun
  passed := trivial
  nodes := by
    rw [List.map_nil, List.append_nil]
    exact h
  same _ _ hp _ := hp
  value := nofun

/-- Reading some entries, and then others. -/
theorem append (h : VisitsRead t u pre P K vs)
    (h' : VisitsRead u t' pre (P ++ vs.map Visit.path) (fun q => kindAt q P (K q) vs) ws) :
    VisitsRead t t' pre P K (vs ++ ws) where
  below := List.forall_mem_append.mpr ⟨h.below, h'.below⟩
  passed := passed_append.mpr ⟨h.passed, h'.passed⟩
  nodes := by
    simp only [List.map_append, ← List.append_assoc, kindAt_append]
    exact h'.nodes
  same p w hp hnot := by
    rw [List.map_append, used_append, not_or] at hnot
    exact h'.same p w (h.same p w hp hnot.1) hnot.2
  value v hv hnot hone p hpath := by
    rw [List.map_append, usesOf_append] at hone
    rcases List.mem_append.mp hv with hv | hv
    · -- the entries after it do not use its path, and leave its node alone
      have hpos := usesOf_pos (List.mem_map_of_mem hv) (List.prefix_refl v.path)
      obtain ⟨n, hmakes, hn⟩ := h.value v hv hnot (by omega) p hpath
      refine ⟨n, hmakes, h'.same p _ hn ?_⟩
      rw [← hpath]
      exact usesOf_eq_zero_iff.mp (by omega)
    · -- the entries before it have not used its path
      have hpos := usesOf_pos (List.mem_map_of_mem hv) (List.prefix_refl v.path)
      refine h'.value v hv ?_ (by omega) p hpath
      rw [used_append, not_or]
      exact ⟨hnot, usesOf_eq_zero_iff.mp (by omega)⟩

/-- An entry that finds its node. -/
theorem found (h : Nodes t pre P K) (hpass : v.Passes (K v.path)) (hpath : v.path = pre ++ q)
    (hmade : v.made = false) (hq : q ≠ []) {w w' : NodeValue} (hw : t.valueAt q = some w)
    (hsame : ∀ p, p ≠ q → t'.valueAt p = t.valueAt p) (hw' : t'.valueAt q = some w')
    (hkind : w'.kind = w.kind.set) : VisitsRead t t' pre P K [v] where
  below := by
    rw [List.forall_mem_singleton, hpath]
    exact List.prefix_append pre q
  passed := ⟨hpass, trivial⟩
  nodes := h.found hq hw hsame hw' hkind hpath hmade
  same p x hx hnot := by
    rw [List.map_singleton, hpath, used_singleton, List.prefix_append_right_inj] at hnot
    rw [hsame p fun heq => hnot (heq ▸ List.prefix_refl q)]
    exact hx
  value x hx hnot := by
    rw [List.mem_singleton.mp hx, hpath, h.not_used_iff hq, hw] at hnot
    cases hnot

/-- An entry that makes its node, and what the entry contains. -/
theorem made (h : Nodes t pre P K) (hpass : v.Passes (K v.path)) (hpath : v.path = pre ++ q)
    (hnone : t.valueAt q = none) (hg : Grafted t t' q c) {d : Node}
    (hc : VisitsRead d c (pre ++ q) (P ++ [pre ++ q]) (fun x => v.kindAfter P x (K x)) vs)
    (hmakes : vs = [] → v.item.Makes c) :
    VisitsRead t t' pre P K (v :: vs) where
  below := by
    refine List.forall_mem_cons.mpr ⟨hpath ▸ List.prefix_append pre q, fun w hw => ?_⟩
    exact (List.prefix_append pre q).trans (hc.below w hw)
  passed := ⟨hpass, hpath ▸ hc.passed⟩
  nodes := h.made hpath hg hc.nodes hc.below
  same p w hp hnot := by
    have hpq : ¬p <+: q := by
      intro hpre
      refine hnot ⟨v.path, List.mem_cons_self, ?_⟩
      rw [hpath]
      exact (List.prefix_append_right_inj pre).mpr hpre
    have hqp : ¬q <+: p := by
      intro hpre
      obtain ⟨w', hw'⟩ := KeyTree.valueAt_of_prefix hpre hp
      rw [hnone] at hw'
      cases hw'
    rw [hg.aside p hpq hqp]
    exact hp
  value w hw hnot hone p hp := by
    have hall : ∀ x ∈ vs.map Visit.path, v.path <+: x := by
      rw [hpath]
      exact List.forall_mem_map.mpr hc.below
    rw [List.map_cons, ← List.singleton_append, usesOf_append] at hone
    rcases List.mem_cons.mp hw with rfl | hw
    · -- what the entry contains would use its path, too
      have hvs : vs = [] := by
        by_contra hne
        obtain ⟨x, xs, rfl⟩ := List.exists_cons_of_ne_nil hne
        have hself : 0 < usesOf w.path [w.path] :=
          usesOf_pos List.mem_cons_self (List.prefix_refl w.path)
        have hx : 0 < usesOf w.path ((x :: xs).map Visit.path) :=
          usesOf_pos List.mem_cons_self (hall x.path List.mem_cons_self)
        omega
      rw [hpath, List.append_cancel_left_eq] at hp
      subst hp
      exact ⟨c, hmakes hvs, hg.valueAt_self⟩
    · -- an entry inside of it is found below the new node
      have hself := usesOf_pos (List.mem_map_of_mem hw) (List.prefix_refl w.path)
      obtain ⟨r, hr⟩ := hc.below w hw
      have hnew : ¬Used (P ++ [pre ++ q]) w.path := by
        rw [used_append, not_or, ← hpath]
        exact ⟨hnot, usesOf_eq_zero_iff.mp (by omega)⟩
      obtain ⟨n, hn, hvalue⟩ := hc.value w hw hnew (by omega) r hr.symm
      rw [← hr, List.append_assoc, List.append_cancel_left_eq] at hp
      rw [← hp, hg.below]
      exact ⟨n, hn, hvalue⟩

end VisitsRead

/-! ## Reading a map -/

/-- Where the text of a node that is there could be set. -/
theorem of_setFound_eq_ok {name : String} {w w' : NodeValue}
    (h : setFound isScalar text name w = .ok w') :
    ¬(w.kind = .scalar ∧ isScalar = false) ∧ w.kind.Takes text ∧ w'.kind = w.kind.set := by
  rw [setFound] at h
  split_ifs at h with hover
  rw [Bool.and_eq_true, ← NodeValue.kind_eq_scalar_iff, Bool.not_eq_true'] at hover
  exact ⟨hover, NodeValue.of_setScalar_eq_ok h⟩

/-- Where the text of a node that is there could not be set. -/
theorem of_setFound_eq_error {name : String} {w : NodeValue}
    (h : setFound isScalar text name w = .error e) :
    (w.kind = .scalar ∧ isScalar = false ∨ ¬w.kind.Takes text) ∧ e.IsFawkesException := by
  rw [setFound] at h
  split_ifs at h with hover
  · rw [Bool.and_eq_true, ← NodeValue.kind_eq_scalar_iff, Bool.not_eq_true'] at hover
    cases h
    exact ⟨.inl hover, trivial⟩
  · exact (NodeValue.of_setScalar_eq_error h).imp_left .inr

theorem nameAt_append (pre : List String) (hq : q ≠ []) : nameAt (pre ++ q) = nameAt q := by
  rw [nameAt, nameAt, List.getLast?_append_of_ne_nil _ hq]

/-- Reading a leaf. -/
theorem Nodes.visitsRead_leaf (h : Nodes t pre P K) (above : List (List String))
    (keys : List String)
    (hu : t.atKey key (enter value.isScalar value.text value.read) = .ok u) :
    VisitsRead t u pre P K
      [⟨⟨pre ++ keyPath key, above, keys, key, some value⟩, ¬Used P (pre ++ keyPath key)⟩] := by
  obtain ⟨hkey, he⟩ := atKey_entered hu
  have hmade := h.not_used_iff hkey
  cases he with
  | found w w' hw hset hsame hw' =>
    -- the node is there: it keeps its children and takes the scalar
    obtain ⟨hover, htakes, hkind⟩ := of_setFound_eq_ok hset
    have hnot : decide (¬Used P (pre ++ keyPath key)) = false := by
      rw [decide_eq_false_iff_not, hmade, hw]
      nofun
    rw [hnot]
    refine .found h ⟨⟨hkey, nofun⟩, ?_⟩ rfl rfl hkey hw hsame hw' hkind
    rw [h.refused_iff hw rfl rfl, not_or, not_not]
    exact ⟨hover, htakes⟩
  | made c hnone hread hg =>
    -- the node is new and childless
    obtain ⟨hreadable, hc, hkind⟩ := YamlLeaf.of_read_eq_ok hread
    have hnew := hmade.mpr hnone
    rw [decide_eq_true hnew]
    refine .made h ⟨⟨hkey, fun _ x hx => ?_⟩, ?_⟩ rfl hnone hg (.nil ?_) fun _ => ?_
    · cases hx
      cases value with
      | sequence elements => exact hreadable
      | _ => trivial
    · rintro ⟨tag, s, hs, hnot⟩
      cases hs
      exact hnot hreadable
    · rw [hc]
      exact nodes_childless hnew
        (hkind.trans (Visit.kindAfter_made P _ ⟨_, above, keys, key, some value⟩).symm)
    · show value.read (nameAt (pre ++ keyPath key)) = .ok c
      rw [nameAt_append _ hkey]
      exact hread

/-- Reading a map, of which `vs` is what is in it. -/
theorem Nodes.visitsRead_map (h : Nodes t pre P K) (above : List (List String))
    (keys : List String)
    (hu : t.atKey key (enter false "" fun _ => Node.readEntries newMap entries) = .ok u)
    (hvs : ∀ c K', Nodes newMap (pre ++ keyPath key) (P ++ [pre ++ keyPath key]) K' →
      Node.readEntries newMap entries = .ok c →
      VisitsRead newMap c (pre ++ keyPath key) (P ++ [pre ++ keyPath key]) K' vs)
    (hmakes : vs = [] → entries = .nil) :
    VisitsRead t u pre P K
      (⟨⟨pre ++ keyPath key, above, keys, key, none⟩, ¬Used P (pre ++ keyPath key)⟩ ::
        if ¬Used P (pre ++ keyPath key) then vs else []) := by
  obtain ⟨hkey, he⟩ := atKey_entered hu
  have hmade := h.not_used_iff hkey
  cases he with
  | found w w' hw hset hsame hw' =>
    obtain ⟨hover, htakes, hkind⟩ := of_setFound_eq_ok hset
    have hused : ¬¬Used P (pre ++ keyPath key) := by
      rw [hmade, hw]
      nofun
    rw [if_neg hused, decide_eq_false hused]
    refine .found h ⟨⟨hkey, nofun⟩, ?_⟩ rfl rfl hkey hw hsame hw' hkind
    rw [h.refused_iff hw rfl rfl, not_or, not_not]
    exact ⟨hover, htakes⟩
  | made c hnone hread hg =>
    have hnew := hmade.mpr hnone
    rw [if_pos hnew, decide_eq_true hnew]
    refine .made h ⟨⟨hkey, nofun⟩, ?_⟩ rfl hnone hg (hvs c _ ?_ hread) fun hnil => ?_
    · rintro ⟨tag, s, hs, -⟩
      cases hs
    · exact nodes_childless hnew (Visit.kindAfter_made P _ ⟨_, above, keys, key, none⟩).symm
    · rw [hmakes hnil] at hread
      exact (Except.ok.inj hread).symm

end Node

open Node

/-- Of a map with entries, the first one is looked at. -/
theorem Entries.visits_eq_nil_iff (pre : List String) (above : List (List String))
    (keys : List String) (P : List (List String)) (es : Entries) :
    es.visits pre above keys P = [] ↔ es = .nil := by
  cases es with
  | nil => exact iff_of_true rfl rfl
  | leaf key value rest => exact iff_of_false nofun nofun
  | map key entries rest => exact iff_of_false nofun nofun

/-- Entries are looked at in their order, each at most once. -/
theorem Entries.visits_sublist_items (pre : List String) (above : List (List String))
    (keys : List String) (P : List (List String)) (es : Entries) :
    ((es.visits pre above keys P).map Visit.item).Sublist (es.items pre above keys) := by
  induction es generalizing pre above keys P with
  | nil => exact .refl _
  | leaf key value rest ih => exact (ih _ _ _ _).cons_cons _
  | map key entries rest ihe ih =>
    rw [visits, items, List.map_cons, List.map_append]
    refine List.Sublist.cons_cons _ (List.Sublist.append ?_ (ih _ _ _ _))
    split_ifs
    · exact ihe _ _ _ _
    · exact List.nil_sublist _

section

variable {t t' : Node} {es : Entries} {pre : List String} {P : List (List String)}
  {K : List String → NodeKind}

/-- What reading a map makes of the tree. -/
theorem Node.Nodes.readEntries_eq_ok (h : Nodes t pre P K) (above : List (List String))
    (keys : List String) (ht : readEntries t es = .ok t') :
    VisitsRead t t' pre P K (es.visits pre above keys P) := by
  induction es generalizing t t' pre above keys P K with
  | nil =>
    cases ht
    exact .nil h
  | leaf key value rest ih =>
    rw [Node.readEntries] at ht
    obtain ⟨u, hu, ht⟩ := exists_of_bind_eq_ok ht
    have hread := h.visitsRead_leaf above keys hu
    exact hread.append (ih hread.nodes above keys ht)
  | map key entries rest ihe ih =>
    rw [Node.readEntries] at ht
    obtain ⟨u, hu, ht⟩ := exists_of_bind_eq_ok ht
    have hread := h.visitsRead_map above keys hu
      (fun c K' hc => ihe hc ((pre ++ keyPath key) :: above) (keys ++ [key]))
      (Entries.visits_eq_nil_iff _ _ _ _ entries).mp
    rw [Entries.visits]
    simp only [decide_eq_true_eq]
    exact hread.append (ih hread.nodes above keys ht)

end

/-! ## Where reading stops -/

/-- The exception is thrown for the entry. -/
structure Visit.Stops (k : NodeKind) (e : ConfigError) (v : Visit) : Prop where
  not_passes : ¬v.Passes k
  emptyKey : e = .emptyKey ↔ keyPath v.item.key = []
  fawkes : e.IsFawkesException ↔ v.Fit

/-- The exception is thrown for the first of the entries for which anything is thrown. -/
inductive Stopped (e : ConfigError) :
    List (List String) → (List String → NodeKind) → List Visit → Prop where
  | here {P : List (List String)} {K : List String → NodeKind} {v : Visit} (vs : List Visit)
    (h : v.Stops (K v.path) e) : Stopped e P K (v :: vs)
  | later {P : List (List String)} {K : List String → NodeKind} {v : Visit} {vs : List Visit}
    (hpass : v.Passes (K v.path))
    (h : Stopped e (P ++ [v.path]) (fun q => v.kindAfter P q (K q)) vs) : Stopped e P K (v :: vs)

theorem ConfigError.IsFawkesException.ne_emptyKey {e : ConfigError} (h : e.IsFawkesException) :
    e ≠ .emptyKey := by
  rintro rfl
  exact h

section

variable {t t' : Node} {es : Entries} {key text : String} {isScalar : Bool} {value : YamlLeaf}
  {fresh : String → Except ConfigError Node} {pre : List String} {P : List (List String)}
  {K : List String → NodeKind} {k : NodeKind} {v : Visit} {vs ws : List Visit} {e : ConfigError}

/-- Where reading stops, what comes later does not matter. -/
theorem Stopped.append_right (h : Stopped e P K vs) (ws : List Visit) :
    Stopped e P K (vs ++ ws) := by
  induction h with
  | here vs h => exact .here _ h
  | later hpass h ih => exact .later hpass ih

/-- Reading can stop after visits in which nothing is thrown. -/
theorem Stopped.append_left (hpassed : Passed P K vs)
    (h : Stopped e (P ++ vs.map Visit.path) (fun q => kindAt q P (K q) vs) ws) :
    Stopped e P K (vs ++ ws) := by
  induction vs generalizing P K with
  | nil =>
    rw [List.map_nil, List.append_nil] at h
    exact h
  | cons v vs ih =>
    rw [List.map_cons, List.append_cons] at h
    exact .later hpassed.1 (ih hpassed.2 h)

/-- An entry that makes its node passes if its value can be read. -/
theorem Visit.passes_made_iff (k : NodeKind) (hmade : v.made = true) :
    v.Passes k ↔
      keyPath v.item.key ≠ [] ∧ ∀ value, v.item.value = some value → value.Readable := by
  rw [Passes, Refused, if_pos hmade]
  constructor
  · rintro ⟨hfit, hnot⟩
    refine ⟨hfit.named, fun value hvalue => ?_⟩
    cases value with
    | null => trivial
    | scalar tag text => exact not_not.mp fun hread => hnot ⟨tag, text, hvalue, hread⟩
    | sequence elements => exact hfit.strings hmade _ hvalue
  · rintro ⟨hkey, hread⟩
    refine ⟨⟨hkey, fun _ value hvalue => ?_⟩, ?_⟩
    · cases value with
      | sequence elements => exact hread _ hvalue
      | _ => trivial
    · rintro ⟨tag, text, hvalue, hnot⟩
      exact hnot (hread _ hvalue)

/-- The node of the entry is there, and its text cannot be set. -/
theorem Node.Nodes.stops_found (h : Nodes t pre P K) {q : List String} {name : String}
    {w : NodeValue} (hw : t.valueAt q = some w) (hpath : v.path = pre ++ q)
    (hmade : v.made = false) (hkey : keyPath v.item.key ≠ [])
    (he : setFound v.item.isScalar v.item.text name w = .error e) : v.Stops (K v.path) e := by
  obtain ⟨hrefused, hthrown⟩ := of_setFound_eq_error he
  refine ⟨fun hpass => hpass.2 ((h.refused_iff hw hpath hmade).mpr hrefused),
    iff_of_false hthrown.ne_emptyKey hkey, iff_of_true hthrown ⟨hkey, fun hmade' => ?_⟩⟩
  rw [hmade] at hmade'
  cases hmade'

/-- Reading stops at a leaf for which an exception is thrown. -/
theorem Node.Nodes.stops_leaf (h : Nodes t pre P K) (above : List (List String))
    (keys : List String)
    (he : t.atKey key (enter value.isScalar value.text value.read) = .error e) :
    Visit.Stops (K (pre ++ keyPath key)) e
      ⟨⟨pre ++ keyPath key, above, keys, key, some value⟩, ¬Used P (pre ++ keyPath key)⟩ := by
  by_cases hkey : keyPath key = []
  · rw [atKey_nil hkey] at he
    cases he
    exact ⟨fun hpass => hpass.1.named hkey, iff_of_true rfl hkey,
      iff_of_false id fun hfit => hfit.named hkey⟩
  · have hmade := h.not_used_iff hkey
    rcases of_atKey_eq_error hkey he with ⟨w, hw, hset⟩ | ⟨hnone, hread⟩
    · refine h.stops_found (v := ⟨⟨_, above, keys, key, some value⟩, _⟩) hw rfl ?_ hkey hset
      rw [decide_eq_false_iff_not, hmade, hw]
      nofun
    · have hnew := decide_eq_true (hmade.mpr hnone)
      rw [hnew]
      obtain ⟨hnot, hne, hthrown⟩ := YamlLeaf.of_read_eq_error hread
      refine ⟨fun hpass => ?_, iff_of_false hne hkey, hthrown.trans ⟨fun hstrings => ?_, ?_⟩⟩
      · exact hnot (((Visit.passes_made_iff _ rfl).mp hpass).2 value rfl)
      · refine ⟨hkey, fun _ x hx => ?_⟩
        cases hx
        exact hstrings
      · exact fun hfit => hfit.strings rfl value rfl

/-- Where reading a map stops. -/
theorem Node.Nodes.readEntries_eq_error (h : Nodes t pre P K) (above : List (List String))
    (keys : List String) (ht : readEntries t es = .error e) :
    Stopped e P K (es.visits pre above keys P) := by
  induction es generalizing t pre above keys P K with
  | nil => cases ht
  | leaf key value rest ih =>
    rw [Node.readEntries] at ht
    rcases of_bind_eq_error ht with hu | ⟨u, hu, ht⟩
    -- either this visit throws, or it is passed and a later one throws
    · exact .here _ (h.stops_leaf above keys hu)
    · have hread := h.visitsRead_leaf above keys hu
      exact .append_left hread.passed (ih hread.nodes above keys ht)
  | map key entries rest ihe ih =>
    rw [Node.readEntries] at ht
    rw [Entries.visits]
    simp only [decide_eq_true_eq]
    rcases of_bind_eq_error ht with hu | ⟨u, hu, ht⟩
    · by_cases hkey : keyPath key = []
      · rw [atKey_nil hkey] at hu
        cases hu
        exact .here _ ⟨fun hpass => hpass.1.named hkey, iff_of_true rfl hkey,
          iff_of_false id fun hfit => hfit.named hkey⟩
      -- the map's key is visited before what is in it
      · have hmade := h.not_used_iff hkey
        -- a node that is there is asked to take a scalar
        rcases of_atKey_eq_error hkey hu with ⟨w, hw, hset⟩ | ⟨hnone, hread⟩
        · refine .here _ (h.stops_found hw rfl ?_ hkey hset)
          rw [decide_eq_false_iff_not, hmade, hw]
          exact Option.some_ne_none w
        · -- the map is read anew, and reading stops in it
          have hnew := hmade.mpr hnone
          rw [if_pos hnew, decide_eq_true hnew]
          have hpass : ∀ value : YamlLeaf, none = some value → value.Readable := by
            intro value hvalue
            cases hvalue
          refine .later ((Visit.passes_made_iff _ rfl).mpr ⟨hkey, hpass⟩) ?_
          refine Stopped.append_right (ihe ?_ _ _ hread) _
          exact nodes_childless hnew (Visit.kindAfter_made P _ ⟨_, above, keys, key, none⟩).symm
    · have hread := h.visitsRead_map above keys hu
        (fun c K' hc => hc.readEntries_eq_ok ((pre ++ keyPath key) :: above) (keys ++ [key]))
        (Entries.visits_eq_nil_iff _ _ _ _ entries).mp
      exact .append_left hread.passed (ih hread.nodes above keys ht)

end

end GazeboRcll
