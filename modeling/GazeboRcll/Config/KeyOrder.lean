import GazeboRcll.Config.Visits
import Mathlib.Data.List.MinMax
import Mathlib.Data.List.Nodup
import Mathlib.Data.Set.Basic

/-!
# The order of the entries of a document

Entries whose keys are paths may belong to the same nodes as other entries, so that it matters
which of them is read first. `Reordered` relates a map to its permutations, on every level.

* `passed_of_skippable`, `skippable_of_passed`: nothing is thrown in some order exactly if there
  are entries that can be skipped.
* `orderFree_iff_predictable`: when the order makes no difference.
-/

namespace GazeboRcll

open Node

/-- One entry. -/
inductive Entry where
  | leaf (key : String) (value : YamlLeaf)
  | map (key : String) (entries : Entries)

def Entry.cons : Entry → Entries → Entries
  | leaf key value, rest => .leaf key value rest
  | map key entries, rest => .map key entries rest

/-- The same entries in another order, on any level. -/
inductive Reordered : Entries → Entries → Prop where
  | refl (es : Entries) : Reordered es es
  | leaf (key : String) (value : YamlLeaf) {rest rest' : Entries} (h : Reordered rest rest') :
    Reordered (.leaf key value rest) (.leaf key value rest')
  | map (key : String) {es es' rest rest' : Entries} (hes : Reordered es es')
    (h : Reordered rest rest') : Reordered (.map key es rest) (.map key es' rest')
  | swap (a b : Entry) (rest : Entries) :
    Reordered (a.cons (b.cons rest)) (b.cons (a.cons rest))
  | trans {es es' es'' : Entries} (h : Reordered es es') (h' : Reordered es' es'') :
    Reordered es es''

/-! ## What does not depend on the order -/

/-- The key has an element, and a node can be made for the entry. -/
def Item.Ok (i : Item) : Prop :=
  keyPath i.key ≠ [] ∧ ∀ value, i.value = some value → value.Readable

/-- Another entry, not one inside of it, goes on from where this one is. -/
def Overlapped (l : List Item) (i : Item) : Prop :=
  ∃ j ∈ l, i.path ∉ j.above ∧ i.path <+: j.path ∧ i.path ≠ j.path

/-- No entry goes on from here. -/
def Maximal (l : List Item) (p : List String) : Prop := ∀ j ∈ l, p <+: j.path → j.path = p

/-- Inside of an entry that is in the way of another one there are no leaf paths. -/
def Kept (l : List Item) : Prop :=
  ∀ i ∈ l, Overlapped l i → ∀ j ∈ l, i.path ∈ j.above → ¬Maximal l j.path

/-- With the entries at the paths `S` skipped, this one is looked at. -/
def LookedAt (S : Set (List String)) (i : Item) : Prop := ∀ q ∈ i.above, q ∉ S

/-- The entries at the paths `S` may be the ones that find their nodes, so that what is in them is
not looked at, and nothing is thrown for those that are looked at. -/
structure Skippable (l : List Item) (S : Set (List String)) : Prop where
  ok : ∀ i ∈ l, LookedAt S i → i.path ∉ S → i.Ok
  settable : ∀ i ∈ l, LookedAt S i → i.path ∈ S → scalarType i.text ≠ none
  /-- For one that is skipped, another one that is looked at in its map goes on from it. -/
  found : ∀ i ∈ l, LookedAt S i → i.path ∈ S →
    ∃ j ∈ l, LookedAt S j ∧ (∀ q ∈ i.above, q ∈ j.above) ∧ i.path ∉ j.above ∧
      i.path <+: j.path ∧ i.path ≠ j.path
  /-- Where one goes on from another one of its map, and neither of them is skipped, nothing that
  is looked at in the other one goes on from it. -/
  made : ∀ i ∈ l, ∀ k ∈ l, LookedAt S i → i.above = k.above → i.path ∉ S → k.path ∉ S →
    i.path <+: k.path → i.path ≠ k.path →
      ∀ j ∈ l, LookedAt S j → i.path ∈ j.above → ¬k.path <+: j.path

/-- Every key has an element, and either all entries can be read and nothing can be lost, or there
are no entries that can be skipped so that nothing is thrown. -/
def Predictable (l : List Item) : Prop :=
  (∀ i ∈ l, keyPath i.key ≠ []) ∧ ((∀ i ∈ l, i.Ok) ∧ Kept l ∨ ∀ S, ¬Skippable l S)

/-- Both orders throw, or both have the same leaves. An access beyond the end of a vector is
neither. -/
inductive Agree : Except ConfigError Node → Except ConfigError Node → Prop where
  | thrown (e e' : ConfigError) (h : e ≠ .emptyKey) (h' : e' ≠ .emptyKey) :
    Agree (.error e) (.error e')
  | same (t t' : Node) (h : ∀ p, p ≠ [] → t.leafAt p = t'.leafAt p) : Agree (.ok t) (.ok t')

/-- A document means the same in every order of its entries. -/
def Entries.OrderFree (d : Entries) : Prop :=
  ∀ d', Reordered d d' → Agree (readConfigDoc (.map d)) (readConfigDoc (.map d'))

/-- The entries of a document. -/
def docItems (d : Entries) : List Item := d.items [] [] []

/-- Those that are looked at. -/
def docVisits (d : Entries) : List Visit := d.visits [] [] [] []

/-! ## Permutations -/

/-- The entries of a map are those of its first entry and of the rest. -/
theorem Entry.items_cons (a : Entry) (rest : Entries) (pre : List String)
    (above : List (List String)) (keys : List String) :
    (a.cons rest).items pre above keys =
      (a.cons .nil).items pre above keys ++ rest.items pre above keys := by
  cases a with
  | leaf key value => rfl
  | map key entries =>
    show _ :: (_ ++ _) = _ :: (_ ++ []) ++ _
    rw [List.append_nil]
    rfl

/-- Another order has the same entries. -/
theorem Reordered.items_perm {es es' : Entries} (h : Reordered es es') (pre : List String)
    (above : List (List String)) (keys : List String) :
    (es.items pre above keys).Perm (es'.items pre above keys) := by
  induction h generalizing pre above keys with
  | refl es => exact .refl _
  | leaf key value h ih => exact (ih pre above keys).cons _
  | map key hes h ihe ih => exact ((ihe _ _ _).append (ih pre above keys)).cons _
  | swap a b rest =>
    rw [a.items_cons (b.cons rest), b.items_cons rest, b.items_cons (a.cons rest),
      a.items_cons rest, ← List.append_assoc, ← List.append_assoc]
    exact List.perm_append_comm.append_right _
  | trans h h' ih ih' => exact (ih pre above keys).trans (ih' pre above keys)

theorem Reordered.nodup {d d' : Entries} (h : Reordered d d') (hd : (d.paths []).Nodup) :
    (d'.paths []).Nodup := by
  rw [← d.map_path_items [] [] []] at hd
  rw [← d'.map_path_items [] [] []]
  exact ((h.items_perm [] [] []).map Item.path).nodup_iff.mp hd

theorem Reordered.mem_iff {d d' : Entries} (h : Reordered d d') (i : Item) :
    i ∈ docItems d ↔ i ∈ docItems d' := (h.items_perm [] [] []).mem_iff

/-- Which paths are leaves depends on the entries only. -/
theorem maximal_congr {l l' : List Item} (h : ∀ i, i ∈ l ↔ i ∈ l') (p : List String) :
    Maximal l p ↔ Maximal l' p :=
  ⟨fun hm j hj => hm j ((h j).mpr hj), fun hm j hj => hm j ((h j).mp hj)⟩

theorem Kept.congr {l l' : List Item} (h : ∀ i, i ∈ l ↔ i ∈ l') (hk : Kept l) : Kept l' := by
  rintro i hi ⟨j', hj', hover⟩ j hj hij hm
  exact hk i ((h i).mpr hi) ⟨j', (h j').mpr hj', hover⟩ j ((h j).mpr hj) hij
    ((maximal_congr h _).mpr hm)

theorem Skippable.congr {l l' : List Item} {S : Set (List String)} (h : ∀ i, i ∈ l ↔ i ∈ l')
    (hs : Skippable l S) : Skippable l' S where
  ok i hi := hs.ok i ((h i).mpr hi)
  settable i hi := hs.settable i ((h i).mpr hi)
  found i hi hlooked hskip := by
    obtain ⟨j, hj, hfound⟩ := hs.found i ((h i).mpr hi) hlooked hskip
    exact ⟨j, (h j).mp hj, hfound⟩
  made i hi k hk hlooked habove hi' hk' hpre hne j hj :=
    hs.made i ((h i).mpr hi) k ((h k).mpr hk) hlooked habove hi' hk' hpre hne j ((h j).mpr hj)

/-! ## Where the entries are -/

variable {es : Entries} {pre : List String} {above : List (List String)} {keys : List String}
  {P : List (List String)} {i j x : Item} {q : List String}

theorem path_mem_paths (hi : i ∈ es.items pre above keys) : i.path ∈ es.paths pre := by
  rw [← es.map_path_items pre above keys]
  exact List.mem_map_of_mem hi

/-- An entry is known by its path. -/
theorem eq_of_path_eq (hnodup : (es.paths pre).Nodup) (hi : i ∈ es.items pre above keys)
    (hj : j ∈ es.items pre above keys) (h : i.path = j.path) : i = j := by
  rw [← es.map_path_items pre above keys] at hnodup
  exact List.inj_on_of_nodup_map hnodup hi hj h

/-- The paths of all the entries begin with the path of the map. -/
theorem prefix_of_mem_paths (hq : q ∈ es.paths pre) : pre <+: q := by
  induction es generalizing pre with
  | nil => cases hq
  | leaf key value rest ih =>
    rcases List.mem_cons.mp hq with rfl | hq
    · exact List.prefix_append pre _
    · exact ih hq
  | map key entries rest ihe ih =>
    rcases List.mem_cons.mp hq with rfl | hq
    · exact List.prefix_append pre _
    · rcases List.mem_append.mp hq with hq | hq
      · exact (List.prefix_append pre _).trans (ihe hq)
      · exact ih hq

/-- The paths of what an entry is inside of: what is around all the entries, and before it the
paths of other entries, each of which is inside of the rest. -/
theorem exists_above (hj : j ∈ es.items pre above keys) :
    ∃ inner, j.above = inner ++ above ∧ ∀ as q bs, inner = as ++ q :: bs →
      ∃ y ∈ es.items pre above keys, y.path = q ∧ y.above = bs ++ above := by
  induction es generalizing pre above keys with
  | nil => cases hj
  | leaf key value rest ih =>
    rcases List.mem_cons.mp hj with rfl | hj
    · exact ⟨[], rfl, fun as q bs h => nomatch List.append_eq_nil_iff.mp h.symm⟩
    · obtain ⟨inner, habove, hinner⟩ := ih hj
      refine ⟨inner, habove, fun as q bs h => ?_⟩
      obtain ⟨y, hy, hyq⟩ := hinner as q bs h
      exact ⟨y, List.mem_cons_of_mem _ hy, hyq⟩
  | map key entries rest ihe ih =>
    rcases List.mem_cons.mp hj with rfl | hj
    · exact ⟨[], rfl, fun as q bs h => nomatch List.append_eq_nil_iff.mp h.symm⟩
    · rcases List.mem_append.mp hj with hj | hj
      -- inside the map there is one more around it
      · obtain ⟨inner, habove, hinner⟩ := ihe hj
        refine ⟨inner ++ [pre ++ keyPath key], by rw [habove, List.append_assoc]; rfl, ?_⟩
        intro as q bs h
        rcases List.eq_nil_or_concat' bs with rfl | ⟨bs, b, rfl⟩
        · -- the outermost one is the map itself
          obtain ⟨rfl, hq⟩ := List.append_inj' h rfl
          obtain rfl := List.singleton_inj.mp hq
          exact ⟨_, List.mem_cons_self, rfl, rfl⟩
        · rw [← List.cons_append, ← List.append_assoc] at h
          obtain ⟨hbs, hb⟩ := List.append_inj' h rfl
          obtain rfl := List.singleton_inj.mp hb
          obtain ⟨y, hy, hyq, hyabove⟩ := hinner as q bs hbs
          refine ⟨y, List.mem_cons_of_mem _ (List.mem_append_left _ hy), hyq, ?_⟩
          rw [hyabove, List.append_assoc]
          rfl
      · obtain ⟨inner, habove, hinner⟩ := ih hj
        refine ⟨inner, habove, fun as q bs h => ?_⟩
        obtain ⟨y, hy, hyq⟩ := hinner as q bs h
        exact ⟨y, List.mem_cons_of_mem _ (List.mem_append_right _ hy), hyq⟩

/-- What an entry is inside of is around all the entries, or one of them. -/
theorem mem_above (hi : i ∈ es.items pre above keys) (hq : q ∈ i.above) :
    q ∈ above ∨ q ∈ es.paths pre := by
  obtain ⟨inner, habove, hinner⟩ := exists_above hi
  rw [habove] at hq
  rcases List.mem_append.mp hq with hq | hq
  · obtain ⟨as, bs, h⟩ := List.append_of_mem hq
    obtain ⟨y, hy, rfl, -⟩ := hinner as q bs h
    exact .inr (path_mem_paths hy)
  · exact .inl hq

theorem mem_above_of_mem (hi : i ∈ es.items pre above keys) (hq : q ∈ above) : q ∈ i.above := by
  obtain ⟨inner, habove, -⟩ := exists_above hi
  rw [habove]
  exact List.mem_append_right inner hq

/-- An entry is below all that it is inside of. -/
theorem exists_dir (hi : i ∈ es.items pre above keys) (habove : ∀ q ∈ above, q <+: pre) :
    ∃ p, pre <+: p ∧ i.path = p ++ keyPath i.key ∧ ∀ q ∈ i.above, q <+: p := by
  induction es generalizing pre above keys with
  | nil => cases hi
  | leaf key value rest ih =>
    rcases List.mem_cons.mp hi with rfl | hi
    · exact ⟨pre, List.prefix_refl _, rfl, habove⟩
    · exact ih hi habove
  | map key entries rest ihe ih =>
    rcases List.mem_cons.mp hi with rfl | hi
    · exact ⟨pre, List.prefix_refl _, rfl, habove⟩
    · rcases List.mem_append.mp hi with hi | hi
      · obtain ⟨p, hpre, hpath⟩ := ihe hi <| List.forall_mem_cons.mpr
          ⟨List.prefix_refl _, fun q hq => (habove q hq).trans (List.prefix_append _ _)⟩
        exact ⟨p, (List.prefix_append _ _).trans hpre, hpath⟩
      · exact ih hi habove

theorem append_not_prefix_self {r : List String} (hr : r ≠ []) : ¬pre ++ r <+: pre := by
  intro hpre
  have hlen := hpre.length_le
  rw [List.length_append] at hlen
  exact hr (List.length_eq_zero_iff.mp (by omega))

/-- An entry is below each one that it is inside of. -/
theorem ne_of_mem_above (hkey : keyPath i.key ≠ []) (hi : i ∈ es.items pre above keys)
    (habove : ∀ q ∈ above, q <+: pre) (hq : q ∈ i.above) : q <+: i.path ∧ q ≠ i.path := by
  obtain ⟨p, -, hpath, hp⟩ := exists_dir hi habove
  rw [hpath]
  refine ⟨(hp q hq).trans (List.prefix_append p _), fun heq => ?_⟩
  exact append_not_prefix_self hkey (heq ▸ hp q hq)

/-- What is inside of all that another entry is inside of is one of the entries of its map, or
inside of one of them. -/
theorem exists_sibling {d : Entries} (hd : (d.paths []).Nodup) (hi : i ∈ docItems d)
    (hj : j ∈ docItems d) (hsub : ∀ q ∈ i.above, q ∈ j.above) :
    ∃ y ∈ docItems d, y.above = i.above ∧ (j = y ∨ y.path ∈ j.above) := by
  obtain ⟨outer, habove, houter⟩ := exists_above hi
  obtain ⟨inner, habove', hinner⟩ := exists_above hj
  rw [List.append_nil] at habove habove'
  subst habove habove'
  have hsuffix : ∃ as, j.above = as ++ i.above := by
    cases h : i.above with
    | nil => exact ⟨j.above, (List.append_nil _).symm⟩
    | cons q bs =>
      obtain ⟨as, bs', hq⟩ := List.append_of_mem (hsub q (h ▸ List.mem_cons_self))
      obtain ⟨y, hy, hyq, hyabove⟩ := houter [] q bs h
      obtain ⟨y', hy', hyq', hyabove'⟩ := hinner as q bs' hq
      -- both of them are the map that has the path `q`
      have heq := eq_of_path_eq hd hy hy' (hyq.trans hyq'.symm)
      rw [heq, hyabove', List.append_nil, List.append_nil] at hyabove
      exact ⟨as, hyabove ▸ hq⟩
  obtain ⟨as, has⟩ := hsuffix
  rcases List.eq_nil_or_concat' as with rfl | ⟨as, z, rfl⟩
  · exact ⟨j, hj, has, .inl rfl⟩
  · rw [List.append_assoc] at has
    obtain ⟨y, hy, hyz, hyabove⟩ := hinner as z i.above has
    rw [List.append_nil] at hyabove
    refine ⟨y, hy, hyabove, .inr ?_⟩
    rw [has, hyz]
    exact List.mem_append_right as List.mem_cons_self

/-! ## Which entries are looked at -/

variable {u v w : Visit} {vs ws : List Visit}

/-- Only entries are looked at. -/
theorem mem_items_of_mem_visits (hv : v ∈ es.visits pre above keys P) :
    v.item ∈ es.items pre above keys :=
  (es.visits_sublist_items pre above keys P).subset (List.mem_map_of_mem hv)

/-- No path is looked at twice. -/
theorem nodup_visits (hnodup : (es.paths pre).Nodup) (above : List (List String))
    (keys : List String) (P : List (List String)) :
    ((es.visits pre above keys P).map Visit.path).Nodup := by
  rw [← es.map_path_items pre above keys] at hnodup
  have hsub := ((es.visits_sublist_items pre above keys P).map Item.path).nodup hnodup
  rwa [List.map_map] at hsub

/-- What is inside of maps that are all made is looked at. -/
theorem exists_visit (hi : i ∈ es.items pre above keys)
    (hmade : ∀ v ∈ es.visits pre above keys P, v.path ∈ i.above → v.made = true) :
    ∃ v ∈ es.visits pre above keys P, v.item = i := by
  induction es generalizing pre above keys P with
  | nil => cases hi
  | leaf key value rest ih =>
    rw [Entries.visits] at hmade ⊢
    rcases List.mem_cons.mp hi with rfl | hi
    · exact ⟨_, List.mem_cons_self, rfl⟩
    · obtain ⟨v, hv, hvi⟩ := ih hi fun w hw => hmade w (List.mem_cons_of_mem _ hw)
      exact ⟨v, List.mem_cons_of_mem _ hv, hvi⟩
  | map key entries rest ihe ih =>
    rw [Entries.visits] at hmade ⊢
    rcases List.mem_cons.mp hi with rfl | hi
    · exact ⟨_, List.mem_cons_self, rfl⟩
    · rcases List.mem_append.mp hi with hi | hi
      · have hmap := hmade _ List.mem_cons_self (mem_above_of_mem hi List.mem_cons_self)
        rw [if_pos hmap] at hmade ⊢
        obtain ⟨v, hv, hvi⟩ := ihe hi fun w hw =>
          hmade w (List.mem_cons_of_mem _ (List.mem_append_left _ hw))
        exact ⟨v, List.mem_cons_of_mem _ (List.mem_append_left _ hv), hvi⟩
      · obtain ⟨v, hv, hvi⟩ := ih hi fun w hw =>
          hmade w (List.mem_cons_of_mem _ (List.mem_append_right _ hw))
        exact ⟨v, List.mem_cons_of_mem _ (List.mem_append_right _ hv), hvi⟩

/-- What is looked at is inside of maps that are looked at and made. -/
theorem exists_made_of_mem_above (hv : v ∈ es.visits pre above keys P) (hq : q ∈ v.item.above) :
    q ∈ above ∨ ∃ w ∈ es.visits pre above keys P, w.path = q ∧ w.made = true := by
  induction es generalizing pre above keys P with
  | nil => cases hv
  | leaf key value rest ih =>
    rw [Entries.visits] at hv ⊢
    rcases List.mem_cons.mp hv with rfl | hv
    · exact .inl hq
    · rcases ih hv with hq | ⟨w, hw, hwq⟩
      · exact .inl hq
      · exact .inr ⟨w, List.mem_cons_of_mem _ hw, hwq⟩
  | map key entries rest ihe ih =>
    rw [Entries.visits] at hv ⊢
    rcases List.mem_cons.mp hv with rfl | hv
    · exact .inl hq
    · rcases List.mem_append.mp hv with hv | hv
      · split_ifs at hv with hmap
        · rw [if_pos hmap]
          rcases ihe hv with hq | ⟨w, hw, hwq⟩
          · rcases List.mem_cons.mp hq with rfl | hq
            · exact .inr ⟨_, List.mem_cons_self, rfl, hmap⟩
            · exact .inl hq
          · exact .inr ⟨w, List.mem_cons_of_mem _ (List.mem_append_left _ hw), hwq⟩
        · cases hv
      · rcases ih hv with hq | ⟨w, hw, hwq⟩
        · exact .inl hq
        · exact .inr ⟨w, List.mem_cons_of_mem _ (List.mem_append_right _ hw), hwq⟩

/-- An entry makes its node if no path used before is its own, or goes on from it. -/
def FirstUse (P : List (List String)) : List Visit → Prop
  | [] => True
  | v :: vs => (v.made = true ↔ ¬Used P v.path) ∧ FirstUse (P ++ [v.path]) vs

theorem firstUse_append :
    FirstUse P (vs ++ ws) ↔ FirstUse P vs ∧ FirstUse (P ++ vs.map Visit.path) ws := by
  induction vs generalizing P with
  | nil =>
    rw [List.map_nil, List.append_nil]
    exact (and_iff_right trivial).symm
  | cons v vs ih =>
    rw [List.cons_append, FirstUse, FirstUse, ih, List.map_cons, ← List.append_cons, and_assoc]

/-- The entries that are looked at make their nodes where nothing has used them before. -/
theorem firstUse_visits (pre : List String) (above : List (List String)) (keys : List String)
    (P : List (List String)) (es : Entries) : FirstUse P (es.visits pre above keys P) := by
  induction es generalizing pre above keys P with
  | nil => trivial
  | leaf key value rest ih => exact ⟨decide_eq_true_iff, ih _ _ _ _⟩
  | map key entries rest ihe ih =>
    rw [Entries.visits]
    refine ⟨decide_eq_true_iff, firstUse_append.mpr ⟨?_, ?_⟩⟩
    · split_ifs
      · exact ihe _ _ _ _
      · trivial
    · rw [← List.append_cons]
      exact ih _ _ _ _

/-- What it means that one visit is before another one. -/
structure Before (u v : Visit) : Prop where
  used : v.path <+: u.path → v.made = false
  around : ∀ q ∈ v.item.above, q <+: u.path → q ∈ u.item.above ∨ q = u.path

/-- What is used by an earlier visit is not made by a later one. -/
theorem FirstUse.pairwise (h : FirstUse P vs) :
    vs.Pairwise fun u v => v.path <+: u.path → v.made = false := by
  induction vs generalizing P with
  | nil => exact .nil
  | cons u vs ih =>
    refine List.pairwise_cons.mpr ⟨fun v hv hpre => ?_, ih h.2⟩
    obtain ⟨as, bs, rfl⟩ := List.append_of_mem hv
    have hused : Used (P ++ [u.path] ++ as.map Visit.path) v.path :=
      used_append.mpr (.inl (used_append.mpr (.inr (used_singleton.mpr hpre))))
    rw [← Bool.not_eq_true, (firstUse_append.mp h.2).2.1, not_not]
    exact hused

/-- What is looked at in a map is looked at without anything else in between. -/
theorem pairwise_visits (pre : List String) (above : List (List String)) (keys : List String)
    (P : List (List String)) (es : Entries) :
    (es.visits pre above keys P).Pairwise Before := by
  have haround : (es.visits pre above keys P).Pairwise fun u v =>
      ∀ q ∈ v.item.above, q <+: u.path → q ∈ u.item.above ∨ q = u.path := by
    induction es generalizing pre above keys P with
    | nil => exact .nil
    | leaf key value rest ih =>
      have huse := (firstUse_visits pre above keys P (.leaf key value rest)).pairwise
      rw [Entries.visits] at huse ⊢
      refine List.pairwise_cons.mpr ⟨fun v hv q hq hpre => ?_, ih _ _ _ _⟩
      rcases exists_made_of_mem_above hv hq with hq | ⟨w, hw, rfl, hmade⟩
      · exact .inl hq
      · rw [(List.pairwise_cons.mp huse).1 w hw hpre] at hmade
        cases hmade
    | map key entries rest ihe ih =>
      have huse := (firstUse_visits pre above keys P (.map key entries rest)).pairwise
      rw [Entries.visits] at huse ⊢
      -- from the map itself, inside it, after it, and from the inside to what comes after
      refine List.pairwise_cons.mpr ⟨fun v hv q hq hpre => ?_, List.pairwise_append.mpr
        ⟨?_, ih _ _ _ _, fun u hu v hv q hq hpre => ?_⟩⟩
      · rcases List.mem_append.mp hv with hv | hv
        · split_ifs at hv with hmap
          · rcases exists_made_of_mem_above hv hq with hq | ⟨w, hw, rfl, -⟩
            · exact (List.mem_cons.mp hq).symm
            · right
              have hback := prefix_of_mem_paths (path_mem_paths (mem_items_of_mem_visits hw))
              exact hpre.eq_of_length_le hback.length_le
          · cases hv
        -- a map that is read later was not made by its own visit
        · rcases exists_made_of_mem_above hv hq with hq | ⟨w, hw, rfl, hmade⟩
          · exact .inl hq
          · rw [(List.pairwise_cons.mp huse).1 w (List.mem_append_right _ hw) hpre] at hmade
            cases hmade
      · split_ifs
        · exact ihe _ _ _ _
        · exact .nil
      · rcases exists_made_of_mem_above hv hq with hq | ⟨w, hw, rfl, hmade⟩
        · split_ifs at hu with hmap
          · exact .inl (mem_above_of_mem (mem_items_of_mem_visits hu) (List.mem_cons_of_mem _ hq))
          · cases hu
        · have hmade' := (List.pairwise_append.mp (List.pairwise_cons.mp huse).2).2.2 u hu w hw hpre
          rw [hmade'] at hmade
          cases hmade
  exact ((firstUse_visits pre above keys P es).pairwise.and haround).imp fun h => ⟨h.1, h.2⟩

/-! ## Reading a document -/

section

variable {K : List String → NodeKind} {d : Entries} {t : Node} {e : ConfigError} {p : List String}

/-- Where every path is the path of one entry only, a node that is there was made on the way to
another one. -/
theorem passed_iff (hnodup : (vs.map Visit.path).Nodup) (hK : ∀ v ∈ vs, K v.path = .other) :
    Passed P K vs ↔ ∀ v ∈ vs, v.Passes .other := by
  induction vs generalizing P K with
  | nil => exact iff_of_true trivial nofun
  | cons v vs ih =>
    obtain ⟨hv, hvs⟩ := List.forall_mem_cons.mp hK
    obtain ⟨hnot, hnodup⟩ := List.nodup_cons.mp hnodup
    rw [Passed, hv, List.forall_mem_cons, ih hnodup fun w hw => ?_]
    have hne : v.path ≠ w.path := fun heq => hnot (heq ▸ List.mem_map_of_mem hw)
    rw [Visit.kindAfter, if_neg hne, hvs w hw]
    split_ifs <;> rfl

/-- Without two entries of one path, an entry that finds a node finds a map. -/
theorem passed_docVisits_iff (hd : (d.paths []).Nodup) :
    Passed [] (fun _ => .other) (docVisits d) ↔ ∀ v ∈ docVisits d, v.Passes .other :=
  passed_iff (nodup_visits hd [] [] []) fun _ _ => rfl

theorem Stopped.not_passed (h : Stopped e P K vs) : ¬Passed P K vs := by
  induction h with
  | here vs h => exact fun hpassed => h.not_passes hpassed.1
  | later hpass h ih => exact fun hpassed => ih hpassed.2

theorem Stopped.ne_emptyKey (h : Stopped e P K vs) (hkeys : ∀ v ∈ vs, keyPath v.item.key ≠ []) :
    e ≠ .emptyKey := by
  induction h with
  | here vs h => exact fun he => hkeys _ List.mem_cons_self (h.emptyKey.mp he)
  | later hpass h ih => exact ih (List.forall_mem_cons.mp hkeys).2

/-- Reading throws nothing exactly if nothing is thrown for the entries looked at. -/
theorem isOk_readEntries_iff (hd : (d.paths []).Nodup) :
    (∃ t, readEntries new d = .ok t) ↔ ∀ v ∈ docVisits d, v.Passes .other := by
  rw [← passed_docVisits_iff hd]
  constructor
  · rintro ⟨t, ht⟩
    exact (nodes_new.readEntries_eq_ok [] [] ht).passed
  · intro hpassed
    cases ht : readEntries new d with
    | ok t => exact ⟨t, rfl⟩
    | error e => exact absurd hpassed (nodes_new.readEntries_eq_error [] [] ht).not_passed

/-- Where all keys have elements, no access is beyond the end of a vector. -/
theorem ne_emptyKey_of_readEntries (hkeys : ∀ i ∈ docItems d, keyPath i.key ≠ [])
    (ht : readEntries new d = .error e) : e ≠ .emptyKey :=
  (nodes_new.readEntries_eq_error [] [] ht).ne_emptyKey fun _ hv =>
    hkeys _ (mem_items_of_mem_visits hv)

/-! ## Leaves -/

/-- The node of a path that nothing goes on from has the value of the entry. -/
theorem exists_leafAt (hd : (d.paths []).Nodup) (ht : readEntries new d = .ok t)
    (hv : v ∈ docVisits d) (hmax : ∀ u ∈ docVisits d, v.path <+: u.path → u.path = v.path) :
    ∃ n, v.item.Makes n ∧ t.leafAt v.path = some n.value := by
  have hread := nodes_new.readEntries_eq_ok [] [] ht
  have hone : usesOf v.path ((docVisits d).map Visit.path) = 1 := by
    have hcount : usesOf v.path ((docVisits d).map Visit.path) =
        ((docVisits d).map Visit.path).count v.path := by
      refine List.countP_congr fun x hx => ?_
      obtain ⟨u, hu, rfl⟩ := List.mem_map.mp hx
      rw [List.isPrefixOf_iff_prefix, beq_iff_eq]
      exact ⟨hmax u hu, fun heq => heq ▸ List.prefix_refl _⟩
    rw [hcount]
    exact List.count_eq_one_of_mem (nodup_visits hd [] [] []) (List.mem_map_of_mem hv)
  obtain ⟨n, hmakes, hvalue⟩ := hread.value v hv not_used_nil hone v.path rfl
  refine ⟨n, hmakes, (t.leafAt_eq_some_iff _ _).mpr ⟨hvalue, fun k => ?_⟩⟩
  by_contra hne
  have hk : v.path ++ [k] ≠ [] := List.append_ne_nil_of_right_ne_nil _ (List.cons_ne_nil k [])
  obtain ⟨x, hx, hpre⟩ := (hread.nodes.isSome_iff _ hk).mp (Option.isSome_iff_ne_none.mpr hne)
  obtain ⟨u, hu, rfl⟩ := List.mem_map.mp hx
  rw [List.nil_append] at hpre
  have hlen := hpre.length_le
  rw [hmax u hu ((List.prefix_append _ [k]).trans hpre), List.length_append] at hlen
  exact absurd hlen (by simp)

/-- A leaf is the node of an entry that nothing goes on from. -/
theorem exists_visit_of_leafAt (ht : readEntries new d = .ok t) (hp : p ≠ [])
    (hleaf : (t.leafAt p).isSome = true) :
    ∃ v ∈ docVisits d, v.path = p ∧ ∀ u ∈ docVisits d, p <+: u.path → u.path = p := by
  have hread := nodes_new.readEntries_eq_ok [] [] ht
  obtain ⟨x, hx⟩ := Option.isSome_iff_exists.mp hleaf
  obtain ⟨hx, hnone⟩ := (t.leafAt_eq_some_iff p x).mp hx
  have hmax : ∀ u ∈ docVisits d, p <+: u.path → u.path = p := by
    rintro u hu ⟨r, hr⟩
    cases r with
    | nil => rw [← hr, List.append_nil]
    | cons k r =>
      have hused : Used ([] ++ (docVisits d).map Visit.path) ([] ++ (p ++ [k])) :=
        ⟨u.path, List.mem_map_of_mem hu, r, by rw [List.nil_append, ← List.append_cons]; exact hr⟩
      have hk : p ++ [k] ≠ [] := List.append_ne_nil_of_left_ne_nil hp [k]
      have hsome := (hread.nodes.isSome_iff _ hk).mpr hused
      rw [hnone k] at hsome
      cases hsome
  obtain ⟨q, hq, hpre⟩ := (hread.nodes.isSome_iff p hp).mp (by rw [hx]; rfl)
  obtain ⟨u, hu, rfl⟩ := List.mem_map.mp hq
  exact ⟨u, hu, hmax u hu hpre, hmax⟩

/-- The node that is made for an entry is known by the entry. -/
theorem Item.Makes.unique {n m : Node} (hn : i.Makes n) (hm : i.Makes m) : n = m := by
  unfold Makes at hn hm
  cases hvalue : i.value with
  | none =>
    rw [hvalue] at hn hm
    exact hn.trans hm.symm
  | some value =>
    rw [hvalue] at hn hm
    exact Except.ok.inj (hn.symm.trans hm)

/-- Every entry is at a path that goes on to a maximal one. -/
theorem exists_maximal {l : List Item} (hi : i ∈ l) (hp : p <+: i.path) :
    ∃ j ∈ l, p <+: j.path ∧ Maximal l j.path := by
  have hmem : i ∈ l.filter fun j => p.isPrefixOf j.path :=
    List.mem_filter.mpr ⟨hi, List.isPrefixOf_iff_prefix.mpr hp⟩
  cases hmax : (l.filter fun j => p.isPrefixOf j.path).argmax fun j => j.path.length with
  | none =>
    rw [List.argmax_eq_none] at hmax
    rw [hmax] at hmem
    cases hmem
  | some j =>
    have hj := List.mem_filter.mp (List.argmax_mem hmax)
    have hpj : p <+: j.path := List.isPrefixOf_iff_prefix.mp hj.2
    refine ⟨j, hj.1, hpj, fun k hk hpre => ?_⟩
    have hk' : k ∈ l.filter fun j => p.isPrefixOf j.path :=
      List.mem_filter.mpr ⟨hk, List.isPrefixOf_iff_prefix.mpr (hpj.trans hpre)⟩
    have hle : k.path.length ≤ j.path.length :=
      List.le_of_mem_argmax (f := fun j : Item => j.path.length) hk' hmax
    exact (hpre.eq_of_length_le hle).symm

end

/-! ## What comes before an entry -/

section

variable {d : Entries} {as bs : List Visit}

/-- What is looked at first comes before. -/
theorem before_of_mem (h : docVisits d = as ++ v :: bs) (hu : u ∈ as) : Before u v := by
  have hpairwise := pairwise_visits [] [] [] [] d
  rw [← docVisits, h] at hpairwise
  exact (List.pairwise_append.mp hpairwise).2.2 u hu v List.mem_cons_self

/-- What is looked at later comes after. -/
theorem before_of_mem_tail (h : docVisits d = as ++ v :: bs) (hu : u ∈ bs) : Before v u := by
  have hpairwise := pairwise_visits [] [] [] [] d
  rw [← docVisits, h] at hpairwise
  exact (List.pairwise_cons.mp (List.pairwise_append.mp hpairwise).2.1).1 u hu

theorem path_ne_of_mem (hd : (d.paths []).Nodup) (h : docVisits d = as ++ v :: bs) (hu : u ∈ as) :
    u.path ≠ v.path := by
  have hnodup := nodup_visits hd [] [] []
  rw [← docVisits, h, List.map_append] at hnodup
  exact (List.nodup_append.mp hnodup).2.2 _ (List.mem_map_of_mem hu) _ List.mem_cons_self

/-- An entry makes its node if nothing before goes on from its path. -/
theorem made_iff_of_append (h : docVisits d = as ++ v :: bs) :
    v.made = true ↔ ∀ u ∈ as, ¬v.path <+: u.path := by
  have huse := firstUse_visits [] [] [] [] d
  rw [← docVisits, h] at huse
  rw [(firstUse_append.mp huse).2.1]
  constructor
  · exact fun hnot u hu hpre => hnot ⟨u.path, List.mem_map_of_mem hu, hpre⟩
  · rintro hnot ⟨q, hq, hpre⟩
    obtain ⟨u, hu, rfl⟩ := List.mem_map.mp hq
    exact hnot u hu hpre

/-- What cannot come after an entry comes before it. -/
theorem mem_of_not_before (h : docVisits d = as ++ v :: bs) (hu : u ∈ docVisits d)
    (hne : u ≠ v) (hnot : ¬Before v u) : u ∈ as := by
  rw [h] at hu
  rcases List.mem_append.mp hu with hu | hu
  · exact hu
  · rcases List.mem_cons.mp hu with heq | hu'
    · exact absurd heq hne
    · exact absurd (before_of_mem_tail h hu') hnot

end

/-! ## Entries that are skipped -/

section

variable {d : Entries} {t : Node} {p : List String}

theorem visit_unique (hd : (d.paths []).Nodup) (hu : u ∈ docVisits d) (hv : v ∈ docVisits d)
    (h : u.path = v.path) : u = v :=
  List.inj_on_of_nodup_map (nodup_visits hd [] [] []) hu hv h

/-- What is inside of an entry that is skipped is not looked at. -/
theorem not_mem_above (hd : (d.paths []).Nodup) (hv : v ∈ docVisits d) (hmade : v.made = false)
    (hu : u ∈ docVisits d) : v.path ∉ u.item.above := by
  intro hmem
  rcases exists_made_of_mem_above hu hmem with hnil | ⟨w, hw, hwv, hmade'⟩
  · cases hnil
  · rw [visit_unique hd hw hv hwv, hmade] at hmade'
    cases hmade'

/-- For an entry that is skipped, one before it goes on from it. -/
theorem exists_before (hd : (d.paths []).Nodup) (hv : v ∈ docVisits d) (hmade : v.made = false) :
    ∃ u ∈ docVisits d, Before u v ∧ v.path <+: u.path ∧ v.path ≠ u.path := by
  obtain ⟨as, bs, h⟩ := List.append_of_mem hv
  have hused : ∃ u ∈ as, v.path <+: u.path := by
    rw [← Bool.not_eq_true, made_iff_of_append h] at hmade
    push Not at hmade
    exact hmade
  obtain ⟨u, hu, hpre⟩ := hused
  exact ⟨u, h ▸ List.mem_append_left _ hu, before_of_mem h hu, hpre, (path_ne_of_mem hd h hu).symm⟩

/-- An entry that is skipped is overlapped. -/
theorem overlapped_of_not_made (hd : (d.paths []).Nodup) (hv : v ∈ docVisits d)
    (hmade : v.made = false) : Overlapped (docItems d) v.item := by
  obtain ⟨u, hu, -, hpre, hne⟩ := exists_before hd hv hmade
  exact ⟨u.item, mem_items_of_mem_visits hu, not_mem_above hd hv hmade hu, hpre, hne⟩

/-- Where nothing can be lost, the entries at the leaf paths are looked at. -/
theorem exists_visit_of_maximal (hd : (d.paths []).Nodup) (hkept : Kept (docItems d))
    (hi : i ∈ docItems d) (hmax : Maximal (docItems d) i.path) :
    ∃ v ∈ docVisits d, v.item = i := by
  refine exists_visit hi fun v hv hvi => ?_
  by_contra hmade
  exact hkept v.item (mem_items_of_mem_visits hv)
    (overlapped_of_not_made hd hv (Bool.not_eq_true _ ▸ hmade)) i hi hvi hmax

/-- Where nothing can be lost, the leaves are the maximal entries. -/
theorem leafAt_eq_some_iff (hd : (d.paths []).Nodup) (hkept : Kept (docItems d))
    (ht : readEntries new d = .ok t) (hp : p ≠ []) (w : NodeValue) :
    t.leafAt p = some w ↔
      ∃ i ∈ docItems d, i.path = p ∧ Maximal (docItems d) p ∧ ∃ n, i.Makes n ∧ n.value = w := by
  constructor
  · intro hleaf
    obtain ⟨v, hv, rfl, hmax⟩ := exists_visit_of_leafAt ht hp (by rw [hleaf]; rfl)
    obtain ⟨n, hmakes, hn⟩ := exists_leafAt hd ht hv hmax
    refine ⟨v.item, mem_items_of_mem_visits hv, rfl, fun j hj hpre => ?_, n, hmakes, ?_⟩
    · -- what goes on from here goes on to a maximal entry, which is looked at
      obtain ⟨j', hj', hjj', hmax'⟩ := exists_maximal hj (List.prefix_refl j.path)
      obtain ⟨u, hu, rfl⟩ := exists_visit_of_maximal hd hkept hj' hmax'
      have heq : u.item.path = v.path := hmax u hu (hpre.trans hjj')
      rw [heq] at hjj'
      exact hjj'.eq_of_length_le hpre.length_le
    · rw [hn] at hleaf
      exact Option.some.inj hleaf
  · rintro ⟨i, hi, rfl, hmax, n, hmakes, rfl⟩
    obtain ⟨v, hv, rfl⟩ := exists_visit_of_maximal hd hkept hi hmax
    obtain ⟨m, hm, hleaf⟩ := exists_leafAt hd ht hv fun u hu =>
      hmax u.item (mem_items_of_mem_visits hu)
    rw [hmakes.unique hm]
    exact hleaf

/-- A text that can be read can also be set. -/
theorem Item.Ok.settable (h : i.Ok) : scalarType i.text ≠ none := by
  have hempty : scalarType "" ≠ none := by decide
  unfold Item.text
  cases hvalue : i.value with
  | none => exact hempty
  | some value =>
    cases value with
    | scalar tag text => exact (h.2 _ hvalue).1
    | _ => exact hempty

/-- For an entry that finds its node only its text matters. -/
theorem passes_of_not_made (hmade : v.made = false) (hkey : keyPath v.item.key ≠ []) :
    v.Passes .other ↔ scalarType v.item.text ≠ none := by
  rw [Visit.Passes, Visit.Refused, hmade, if_neg Bool.false_ne_true, not_or, not_not]
  constructor
  · exact fun h => h.2.2
  · refine fun h => ⟨⟨hkey, fun hmade' => ?_⟩, fun hscalar => NodeKind.noConfusion hscalar.1, h⟩
    rw [hmade] at hmade'
    cases hmade'

/-- Where every entry can be read, nothing is thrown. -/
theorem exists_readEntries (hd : (d.paths []).Nodup) (hok : ∀ i ∈ docItems d, i.Ok) :
    ∃ t, readEntries new d = .ok t := by
  rw [isOk_readEntries_iff hd]
  intro v hv
  have hitem := hok v.item (mem_items_of_mem_visits hv)
  cases hmade : v.made with
  | true => exact (Visit.passes_made_iff _ hmade).mpr hitem
  | false => exact (passes_of_not_made hmade hitem.1).mpr hitem.settable

/-- The paths of the entries that are skipped. -/
def skipped (d : Entries) : Set (List String) :=
  {q | ∃ v ∈ docVisits d, v.path = q ∧ v.made = false}

/-- An entry is skipped if it finds its node. -/
theorem mem_skipped_iff (hd : (d.paths []).Nodup) (hv : v ∈ docVisits d) :
    v.path ∈ skipped d ↔ v.made = false := by
  refine ⟨?_, fun hmade => ⟨v, hv, rfl, hmade⟩⟩
  rintro ⟨u, hu, huv, hmade⟩
  rwa [visit_unique hd hu hv huv] at hmade

/-- What is looked at is inside of entries that are not skipped. -/
theorem lookedAt_of_mem (hd : (d.paths []).Nodup) (hv : v ∈ docVisits d) :
    LookedAt (skipped d) v.item := by
  rintro q hq ⟨u, hu, rfl, hmade⟩
  exact not_mem_above hd hu hmade hv hq

/-- What is inside of entries that are not skipped is looked at. -/
theorem exists_visit_of_lookedAt (hi : i ∈ docItems d) (h : LookedAt (skipped d) i) :
    ∃ v ∈ docVisits d, v.item = i := by
  refine exists_visit hi fun v hv hvi => ?_
  by_contra hmade
  exact h _ hvi ⟨v, hv, rfl, Bool.not_eq_true _ ▸ hmade⟩

/-- Visits that are not the same are one before the other. -/
theorem before_or_before (hu : u ∈ docVisits d) (hv : v ∈ docVisits d) (hne : u ≠ v) :
    Before u v ∨ Before v u := by
  obtain ⟨as, bs, h⟩ := List.append_of_mem hv
  by_cases hbefore : Before v u
  · exact .inr hbefore
  · exact .inl (before_of_mem h (mem_of_not_before h hu hne hbefore))

/-- An order in which nothing is thrown skips entries that can be skipped. -/
theorem skippable_of_passed (hd : (d.paths []).Nodup) (hpass : ∀ v ∈ docVisits d, v.Passes .other) :
    Skippable (docItems d) (skipped d) where
  ok i hi hlooked hnot := by
    obtain ⟨v, hv, rfl⟩ := exists_visit_of_lookedAt hi hlooked
    have hmade : v.made = true := by
      rw [← Bool.not_eq_false]
      exact fun hmade => hnot ((mem_skipped_iff hd hv).mpr hmade)
    exact (Visit.passes_made_iff _ hmade).mp (hpass v hv)
  settable i hi hlooked hskip := by
    obtain ⟨v, hv, rfl⟩ := exists_visit_of_lookedAt hi hlooked
    have hmade := (mem_skipped_iff hd hv).mp hskip
    exact (passes_of_not_made hmade (hpass v hv).1.named).mp (hpass v hv)
  found i hi hlooked hskip := by
    obtain ⟨v, hv, rfl⟩ := exists_visit_of_lookedAt hi hlooked
    have hmade := (mem_skipped_iff hd hv).mp hskip
    -- the visit that made the node
    obtain ⟨u, hu, hbefore, hpre, hne⟩ := exists_before hd hv hmade
    refine ⟨u.item, mem_items_of_mem_visits hu, lookedAt_of_mem hd hu, fun q hq => ?_,
      not_mem_above hd hv hmade hu, hpre, hne⟩
    obtain ⟨hqv, hqne⟩ := ne_of_mem_above (hpass v hv).1.named hi nofun hq
    rcases hbefore.around q hq (hqv.trans hpre) with hmem | rfl
    · exact hmem
    · exact absurd (hqv.eq_of_length_le hpre.length_le) hqne
  made i hi k hk hlooked habove hi' hk' hpre hne j hj hlooked' hij hkj := by
    obtain ⟨v, hv, rfl⟩ := exists_visit_of_lookedAt hk fun q hq => hlooked q (habove ▸ hq)
    obtain ⟨u, hu, rfl⟩ := exists_visit_of_lookedAt hj hlooked'
    have hmade : v.made ≠ false := fun hmade => hk' ((mem_skipped_iff hd hv).mpr hmade)
    have hiv : i.path ∉ v.item.above := by
      intro hmem
      obtain ⟨w, hw, rfl⟩ := exists_visit_of_lookedAt hi hlooked
      exact (ne_of_mem_above (hpass w hw).1.named hi nofun (habove ▸ hmem)).2 rfl
    by_cases huv : u = v
    · rw [huv] at hij
      exact hiv hij
    -- whichever comes first has used the path of the other
    · rcases before_or_before hu hv huv with hbefore | hbefore
      · exact hmade (hbefore.used hkj)
      · rcases hbefore.around _ hij hpre with hmem | heq
        · exact hiv hmem
        · exact hne heq

end

/-! ## Entries at the front -/

/-- The entry, and each one it is inside of, is the first of its map. -/
def AtFront (x : Item) (pre : List String) (above : List (List String))
    (keys : List String) : Entries → Prop
  | .nil => False
  | .leaf key value _ => x = ⟨pre ++ keyPath key, above, keys, key, some value⟩
  | .map key entries _ =>
    x = ⟨pre ++ keyPath key, above, keys, key, none⟩ ∨
      AtFront x (pre ++ keyPath key) ((pre ++ keyPath key) :: above) (keys ++ [key]) entries

/-- What is at the front is one of the entries. -/
theorem AtFront.mem (h : AtFront x pre above keys es) : x ∈ es.items pre above keys := by
  induction es generalizing pre above keys with
  | nil => cases h
  | leaf key value rest ih =>
    obtain rfl := h
    exact List.mem_cons_self
  | map key entries rest ihe ih =>
    rcases h with rfl | h
    · exact List.mem_cons_self
    · exact List.mem_cons_of_mem _ (List.mem_append_left _ (ihe h))

theorem Reordered.cons (a : Entry) {rest rest' : Entries} (h : Reordered rest rest') :
    Reordered (a.cons rest) (a.cons rest') := by
  cases a with
  | leaf key value => exact .leaf key value h
  | map key entries => exact .map key (.refl entries) h

/-- What is at the front of the rest can be moved past the first entry. -/
theorem AtFront.past (a : Entry) (h : AtFront x pre above keys es) :
    ∃ es', Reordered (a.cons es) es' ∧ AtFront x pre above keys es' := by
  cases es with
  | nil => cases h
  | leaf key value rest => exact ⟨_, .swap a (.leaf key value) rest, h⟩
  | map key entries rest => exact ⟨_, .swap a (.map key entries) rest, h⟩

/-- Every entry is at the front in some order. -/
theorem exists_atFront (hx : x ∈ es.items pre above keys) :
    ∃ es', Reordered es es' ∧ AtFront x pre above keys es' := by
  induction es generalizing pre above keys with
  | nil => cases hx
  | leaf key value rest ih =>
    rcases List.mem_cons.mp hx with rfl | hx
    · exact ⟨_, .refl _, rfl⟩
    · obtain ⟨rest', hr, hfront⟩ := ih hx
      obtain ⟨es', hr', hfront'⟩ := hfront.past (.leaf key value)
      exact ⟨es', .trans (hr.cons (.leaf key value)) hr', hfront'⟩
  | map key entries rest ihe ih =>
    rcases List.mem_cons.mp hx with rfl | hx
    · exact ⟨_, .refl _, .inl rfl⟩
    · rcases List.mem_append.mp hx with hx | hx
      · obtain ⟨entries', hr, hfront⟩ := ihe hx
        exact ⟨_, .map key hr (.refl rest), .inr hfront⟩
      · obtain ⟨rest', hr, hfront⟩ := ih hx
        obtain ⟨es', hr', hfront'⟩ := hfront.past (.map key entries)
        exact ⟨es', .trans (hr.cons (.map key entries)) hr', hfront'⟩

theorem not_used_append {key : String} (hkey : keyPath key ≠ []) (hP : ∀ q ∈ P, q <+: pre) :
    ¬Used P (pre ++ keyPath key) := fun ⟨q, hq, hpre⟩ =>
  append_not_prefix_self hkey (hpre.trans (hP q hq))

/-- An entry at the front makes its node, and only the maps that it is inside of are looked at
before. -/
theorem AtFront.exists_append (h : AtFront x pre above keys es)
    (hkeys : ∀ j ∈ es.items pre above keys, keyPath j.key ≠ []) (hP : ∀ q ∈ P, q <+: pre) :
    ∃ as bs, es.visits pre above keys P = as ++ ⟨x, true⟩ :: bs ∧ ∀ u ∈ as, u.path ∈ x.above := by
  induction es generalizing pre above keys P with
  | nil => cases h
  | leaf key value rest ih =>
    have hmade := decide_eq_true (not_used_append (hkeys _ List.mem_cons_self) hP)
    obtain rfl := h
    rw [Entries.visits, hmade]
    exact ⟨[], _, rfl, List.forall_mem_nil _⟩
  | map key entries rest ihe ih =>
    have hmade := decide_eq_true (not_used_append (hkeys _ List.mem_cons_self) hP)
    rw [Entries.visits, hmade]
    rcases h with rfl | h
    · exact ⟨[], _, rfl, List.forall_mem_nil _⟩
    · have hP' : ∀ q ∈ P ++ [pre ++ keyPath key], q <+: pre ++ keyPath key := by
        refine List.forall_mem_append.mpr ⟨fun q hq => ?_, ?_⟩
        · exact (hP q hq).trans (List.prefix_append pre _)
        · rw [List.forall_mem_singleton]
      obtain ⟨as, bs, happend, has⟩ := ihe h
        (fun j hj => hkeys j (List.mem_cons_of_mem _ (List.mem_append_left _ hj))) hP'
      dsimp only [Visit.path]
      rw [if_pos rfl, happend, List.append_assoc, ← List.cons_append]
      refine ⟨_, _, rfl, List.forall_mem_cons.mpr ⟨?_, has⟩⟩
      exact mem_above_of_mem h.mem List.mem_cons_self

/-- An entry that cannot be read throws at the front. -/
theorem readEntries_error_of_atFront {d : Entries} (hd : (d.paths []).Nodup)
    (hkeys : ∀ i ∈ docItems d, keyPath i.key ≠ []) (h : AtFront x [] [] [] d) (hbad : ¬x.Ok) :
    ∃ e, readEntries new d = .error e := by
  cases ht : readEntries new d with
  | error e => exact ⟨e, rfl⟩
  | ok t =>
    have hpass := (isOk_readEntries_iff hd).mp ⟨t, ht⟩
    obtain ⟨as, bs, happend, -⟩ := h.exists_append (P := []) hkeys nofun
    have hx : ⟨x, true⟩ ∈ docVisits d := by
      rw [docVisits, happend]
      exact List.mem_append_right as List.mem_cons_self
    exact absurd ((Visit.passes_made_iff _ rfl).mp (hpass _ hx)) hbad

/-- A key without an element at the front is reached. -/
theorem AtFront.readEntries_eq_emptyKey (h : AtFront x pre above keys es)
    (hkey : keyPath x.key = []) (w : NodeValue) :
    readEntries ⟨w, .nil⟩ es = .error .emptyKey := by
  induction es generalizing pre above keys w with
  | nil => cases h
  | leaf key value rest ih =>
    obtain rfl := h
    rw [readEntries, atKey_nil hkey]
    rfl
  | map key entries rest ihe ih =>
    rw [readEntries]
    rcases h with rfl | h
    · rw [atKey_nil hkey]
      rfl
    · by_cases hname : keyPath key = []
      · rw [atKey_nil hname]
        rfl
      · obtain ⟨dirs, hdirs⟩ := exists_concat hname
        have hnone : KeyTree.get? (⟨w, .nil⟩ : Node) (dirs ++ [nameAt (keyPath key)]) = none := by
          cases dirs <;> rfl
        rw [atKey_enter_of_none_error hdirs hnone (ihe h ⟨.map, "", []⟩)]
        rfl

/-! ## Sorting the entries -/

section

variable {r : List String → List String → Prop}

def Entry.path (pre : List String) : Entry → List String
  | leaf key _ | map key _ => pre ++ keyPath key

/-- The paths of the entries of a map, without what is in them. -/
def Entries.heads (pre : List String) : Entries → List (List String)
  | .nil => []
  | .leaf key _ rest | .map key _ rest => (pre ++ keyPath key) :: heads pre rest

/-- On every level the paths of the entries are in the order `r`. -/
def Arranged (r : List String → List String → Prop) (pre : List String) : Entries → Prop
  | .nil => True
  | .leaf key _ rest => (∀ q ∈ rest.heads pre, r (pre ++ keyPath key) q) ∧ Arranged r pre rest
  | .map key entries rest =>
    (∀ q ∈ rest.heads pre, r (pre ++ keyPath key) q) ∧ Arranged r (pre ++ keyPath key) entries ∧
      Arranged r pre rest

def Entry.Arranged (r : List String → List String → Prop) (pre : List String) : Entry → Prop
  | leaf _ _ => True
  | map key entries => GazeboRcll.Arranged r (pre ++ keyPath key) entries

/-- Induction over the entries of one map, without what is in them. -/
@[elab_as_elim]
theorem Entries.cons_induction {motive : Entries → Prop} (nil : motive .nil)
    (cons : ∀ a rest, motive rest → motive (Entry.cons a rest)) (es : Entries) : motive es := by
  induction es with
  | nil => exact nil
  | leaf key value rest ih => exact cons (.leaf key value) rest ih
  | map key entries rest ihe ih => exact cons (.map key entries) rest ih

theorem heads_cons (a : Entry) (rest : Entries) :
    (a.cons rest).heads pre = a.path pre :: rest.heads pre := by cases a <;> rfl

/-- The first entry is before the others, and what is in it is in order. -/
theorem arranged_cons (a : Entry) (rest : Entries) :
    Arranged r pre (a.cons rest) ↔
      (∀ q ∈ rest.heads pre, r (a.path pre) q) ∧ a.Arranged r pre ∧ Arranged r pre rest := by
  cases a with
  | leaf key value => exact and_congr_right fun _ => (and_iff_right trivial).symm
  | map key entries => exact Iff.rfl

/-- An entry is put at its place. -/
theorem exists_inserted (htotal : ∀ p q, r p q ∨ r q p) (htrans : ∀ p q s, r p q → r q s → r p s)
    (a : Entry) (ha : a.Arranged r pre) (hes : Arranged r pre es) :
    ∃ es', Reordered (a.cons es) es' ∧ Arranged r pre es' ∧
      ∀ q ∈ es'.heads pre, q = a.path pre ∨ q ∈ es.heads pre := by
  induction es using Entries.cons_induction with
  | nil =>
    refine ⟨_, .refl _, (arranged_cons a .nil).mpr ⟨nofun, ha, trivial⟩, fun q hq => ?_⟩
    rw [heads_cons] at hq
    exact List.mem_cons.mp hq
  -- the entry is swapped forward until it is not before the next one
  | cons b rest ih =>
    obtain ⟨hb, hb', hrest⟩ := (arranged_cons b rest).mp hes
    rcases htotal (a.path pre) (b.path pre) with hab | hba
    · refine ⟨_, .refl _, (arranged_cons a _).mpr ⟨fun q hq => ?_, ha, hes⟩, fun q hq => ?_⟩
      · rw [heads_cons] at hq
        rcases List.mem_cons.mp hq with rfl | hq
        · exact hab
        · exact htrans _ _ _ hab (hb q hq)
      · rw [heads_cons] at hq
        exact List.mem_cons.mp hq
    · obtain ⟨es', hr, harranged, hheads⟩ := ih hrest
      refine ⟨_, .trans (.swap a b rest) (hr.cons b), (arranged_cons b es').mpr
        ⟨fun q hq => ?_, hb', harranged⟩, fun q hq => ?_⟩
      · rcases hheads q hq with rfl | hq
        · exact hba
        · exact hb q hq
      · rw [heads_cons] at hq ⊢
        rcases List.mem_cons.mp hq with rfl | hq
        · exact .inr List.mem_cons_self
        · exact (hheads q hq).imp_right (List.mem_cons_of_mem _)

/-- Every document can be brought into an order. -/
theorem exists_arranged (htotal : ∀ p q, r p q ∨ r q p)
    (htrans : ∀ p q s, r p q → r q s → r p s) (pre : List String) (es : Entries) :
    ∃ es', Reordered es es' ∧ Arranged r pre es' := by
  induction es generalizing pre with
  | nil => exact ⟨.nil, .refl _, trivial⟩
  | leaf key value rest ih =>
    obtain ⟨rest', hr, hrest⟩ := ih pre
    obtain ⟨es', hr', harranged, -⟩ :=
      exists_inserted htotal htrans (.leaf key value) trivial hrest
    exact ⟨es', .trans (.leaf key value hr) hr', harranged⟩
  | map key entries rest ihe ih =>
    obtain ⟨entries', hre, hentries⟩ := ihe (pre ++ keyPath key)
    obtain ⟨rest', hr, hrest⟩ := ih pre
    obtain ⟨es', hr', harranged, -⟩ :=
      exists_inserted htotal htrans (.map key entries') hentries hrest
    exact ⟨es', .trans (.map key hre hr) hr', harranged⟩

/-- What has nothing of the map around it is one of the map's own entries. -/
theorem mem_heads (hi : i ∈ es.items pre above keys) (heq : i.above = above)
    (hkeys : ∀ j ∈ es.items pre above keys, keyPath j.key ≠ []) (habove : ∀ q ∈ above, q <+: pre) :
    i.path ∈ es.heads pre := by
  induction es with
  | nil => cases hi
  | leaf key value rest ih =>
    rcases List.mem_cons.mp hi with rfl | hi
    · exact List.mem_cons_self
    · exact List.mem_cons_of_mem _ (ih hi fun j hj => hkeys j (List.mem_cons_of_mem _ hj))
  | map key entries rest ihe ih =>
    rcases List.mem_cons.mp hi with rfl | hi
    · exact List.mem_cons_self
    · rcases List.mem_append.mp hi with hi | hi
      · -- it is inside of the map, too
        have hmem := mem_above_of_mem hi List.mem_cons_self
        rw [heq] at hmem
        exact absurd (habove _ hmem) (append_not_prefix_self (hkeys _ List.mem_cons_self))
      · exact List.mem_cons_of_mem _ (ih hi fun j hj =>
          hkeys j (List.mem_cons_of_mem _ (List.mem_append_right _ hj)))

/-- Entries of one map are looked at in their order. -/
theorem Arranged.pairwise (h : Arranged r pre es) (hnodup : (es.paths pre).Nodup)
    (hkeys : ∀ j ∈ es.items pre above keys, keyPath j.key ≠ []) (habove : ∀ q ∈ above, q <+: pre) :
    (es.visits pre above keys P).Pairwise fun u v =>
      u.item.above = v.item.above → r u.path v.path := by
  induction es generalizing pre above keys P with
  | nil => exact .nil
  | leaf key value rest ih =>
    have hkeys' := fun j hj => hkeys j (List.mem_cons_of_mem _ hj)
    refine List.pairwise_cons.mpr ⟨fun v hv heq => ?_,
      ih h.2 (List.nodup_cons.mp hnodup).2 hkeys' habove⟩
    exact h.1 _ (mem_heads (mem_items_of_mem_visits hv) heq.symm hkeys' habove)
  | map key entries rest ihe ih =>
    obtain ⟨hheads, hentries, hrest⟩ := h
    obtain ⟨hself, hnodup⟩ := List.nodup_cons.mp hnodup
    have hkeys' := fun j hj => hkeys j (List.mem_cons_of_mem _ (List.mem_append_right _ hj))
    have hinside := fun j hj => hkeys j (List.mem_cons_of_mem _ (List.mem_append_left _ hj))
    have habove' : ∀ q ∈ (pre ++ keyPath key) :: above, q <+: pre ++ keyPath key :=
      List.forall_mem_cons.mpr
        ⟨List.prefix_refl _, fun q hq => (habove q hq).trans (List.prefix_append pre _)⟩
    -- inside a map nothing has the same maps around it as the map
    have hnot : pre ++ keyPath key ∉ above := by
      exact fun hmem => append_not_prefix_self (hkeys _ List.mem_cons_self) (habove _ hmem)
    rw [Entries.visits]
    refine List.pairwise_cons.mpr ⟨fun v hv heq => ?_, List.pairwise_append.mpr
      ⟨?_, ih hrest (List.nodup_append.mp hnodup).2.1 hkeys' habove, fun u hu v hv heq => ?_⟩⟩
    · rcases List.mem_append.mp hv with hv | hv
      · split_ifs at hv
        · have hmem := mem_above_of_mem (mem_items_of_mem_visits hv) List.mem_cons_self
          rw [← heq] at hmem
          exact absurd hmem hnot
        · cases hv
      · exact hheads _ (mem_heads (mem_items_of_mem_visits hv) heq.symm hkeys' habove)
    · split_ifs
      · exact ihe hentries (List.nodup_append.mp hnodup).1 hinside habove'
      · exact .nil
    · split_ifs at hu
      -- nor has anything after it as what is inside
      · have hmem := mem_above_of_mem (mem_items_of_mem_visits hu) List.mem_cons_self
        rw [heq] at hmem
        rcases mem_above (mem_items_of_mem_visits hv) hmem with hmem | hmem
        · exact absurd hmem hnot
        · exact absurd (List.mem_append_right _ hmem) hself
      · cases hu

end

/-! ## An order that skips the entries of a given set -/

section

variable {d : Entries} {S : Set (List String)} {as bs : List Visit}

/-- What is not skipped comes first, the shorter paths before the longer ones, and then what is
skipped, the longer paths before the shorter ones. -/
def Earlier (S : Set (List String)) (p q : List String) : Prop :=
  (p ∈ S → q ∈ S ∧ q.length ≤ p.length) ∧ (p ∉ S → q ∈ S ∨ p.length ≤ q.length)

/-- Of two paths one is the earlier. -/
theorem Earlier.total (S : Set (List String)) (p q : List String) :
    Earlier S p q ∨ Earlier S q p := by
  have hle := Nat.le_total p.length q.length
  unfold Earlier
  tauto

theorem Earlier.trans {p q r : List String} (h : Earlier S p q) (h' : Earlier S q r) :
    Earlier S p r := by
  have hle := Nat.le_trans (n := p.length) (m := q.length) (k := r.length)
  have hge := Nat.le_trans (n := r.length) (m := q.length) (k := p.length)
  unfold Earlier at h h' ⊢
  tauto

/-- The maps around an entry are looked at before it. -/
theorem exists_mem_of_mem_above (hkeys : ∀ i ∈ docItems d, keyPath i.key ≠ [])
    (h : docVisits d = as ++ v :: bs) (hq : q ∈ v.item.above) :
    ∃ w ∈ as, w.path = q ∧ w.made = true := by
  have hv : v ∈ docVisits d := h ▸ List.mem_append_right as List.mem_cons_self
  have hitem := mem_items_of_mem_visits hv
  obtain ⟨hpre, hne⟩ := ne_of_mem_above (hkeys _ hitem) hitem nofun hq
  rcases exists_made_of_mem_above hv hq with hnil | ⟨w, hw, rfl, hmade⟩
  · cases hnil
  · refine ⟨w, mem_of_not_before h hw (ne_of_apply_ne _ hne) fun hbefore => ?_, rfl, hmade⟩
    rw [hbefore.used hpre] at hmade
    cases hmade

/-- What is looked at first, up to an entry, is looked at with the entries `S` skipped, if those
before have been skipped in this way. -/
theorem lookedAt_of_append (hkeys : ∀ i ∈ docItems d, keyPath i.key ≠ [])
    (h : docVisits d = as ++ v :: bs) (ih : ∀ u ∈ as, (u.made = true ↔ u.path ∉ S))
    (hu : u ∈ as ∨ u = v) : LookedAt S u.item := by
  intro q hq
  have hbefore : ∃ w ∈ as, w.path = q ∧ w.made = true := by
    rcases hu with hu | rfl
    · obtain ⟨as', bs', rfl⟩ := List.append_of_mem hu
      rw [List.append_assoc] at h
      obtain ⟨w, hw, hwq⟩ := exists_mem_of_mem_above hkeys h hq
      exact ⟨w, List.mem_append_left _ hw, hwq⟩
    · exact exists_mem_of_mem_above hkeys h hq
  obtain ⟨w, hw, rfl, hmade⟩ := hbefore
  exact (ih w hw).mp hmade

/-- Two of the entries that an entry is inside of are the same, or one is inside of the other. -/
theorem mem_above_or_mem_above (hd : (d.paths []).Nodup) (hj : j ∈ docItems d)
    (hi : i ∈ docItems d) (hx : x ∈ docItems d) (hij : i.path ∈ j.above)
    (hxj : x.path ∈ j.above) : x.path ∈ i.above ∨ x = i ∨ i.path ∈ x.above := by
  obtain ⟨inner, habove, hinner⟩ := exists_above hj
  rw [List.append_nil] at habove
  subst habove
  obtain ⟨as, bs, h⟩ := List.append_of_mem hij
  obtain ⟨y, hy, hyi, hyabove⟩ := hinner as i.path bs h
  obtain rfl := eq_of_path_eq hd hy hi hyi
  rw [List.append_nil] at hyabove
  rw [h] at hxj
  rcases List.mem_append.mp hxj with hmem | hmem
  · obtain ⟨as', bs', rfl⟩ := List.append_of_mem hmem
    rw [List.append_assoc] at h
    obtain ⟨z, hz, hzx, hzabove⟩ := hinner as' x.path (bs' ++ y.path :: bs) h
    obtain rfl := eq_of_path_eq hd hz hx hzx
    rw [hzabove]
    exact .inr (.inr (List.mem_append_left _ (List.mem_append_right _ List.mem_cons_self)))
  · rcases List.mem_cons.mp hmem with heq | hmem
    · exact .inr (.inl (eq_of_path_eq hd hx hy heq))
    · exact .inl (hyabove ▸ hmem)

/-- What is inside of an entry of the same map, which comes first and from which this one goes on,
is looked at before this one. -/
theorem mem_of_mem_above (hkeys : ∀ i ∈ docItems d, keyPath i.key ≠ [])
    (h : docVisits d = as ++ v :: bs) (hi : i ∈ docItems d) (habove : i.above = v.item.above)
    (hpre : i.path <+: v.path) (hne : i.path ≠ v.path) (hu : u ∈ docVisits d)
    (huv : u.path ≠ v.path) (hiu : i.path ∈ u.item.above) : u ∈ as := by
  refine mem_of_not_before h hu (ne_of_apply_ne _ huv) fun hbefore => ?_
  rcases hbefore.around i.path hiu hpre with hmem | heq
  · rw [← habove] at hmem
    exact (ne_of_mem_above (hkeys i hi) hi nofun hmem).2 rfl
  · exact hne heq

/-- The entries of each map are looked at in the order of `Earlier`. -/
def InOrder (S : Set (List String)) (vs : List Visit) : Prop :=
  vs.Pairwise fun u v => u.item.above = v.item.above → Earlier S u.path v.path

/-- An entry of the same map that belongs before this one is looked at before it. -/
theorem exists_mem_of_not_earlier (hd : (d.paths []).Nodup)
    (hkeys : ∀ i ∈ docItems d, keyPath i.key ≠ []) (horder : InOrder S (docVisits d))
    (h : docVisits d = as ++ v :: bs) (hi : i ∈ docItems d) (habove : i.above = v.item.above)
    (hne : i.path ≠ v.path) (hnot : ¬Earlier S v.path i.path) : ∃ u ∈ as, u.item = i := by
  have hlooked : ∃ u ∈ docVisits d, u.item = i := by
    refine exists_visit hi fun w hw hwi => ?_
    rw [habove] at hwi
    obtain ⟨w', hw', heq, hmade⟩ := exists_mem_of_mem_above hkeys h hwi
    have hw'' : w' ∈ docVisits d := h ▸ List.mem_append_left _ hw'
    rwa [visit_unique hd hw'' hw heq] at hmade
  obtain ⟨u, hu, rfl⟩ := hlooked
  refine ⟨u, ?_, rfl⟩
  rw [h] at hu horder
  rcases List.mem_append.mp hu with hu | hu
  · exact hu
  · rcases List.mem_cons.mp hu with rfl | hu
    · exact absurd rfl hne
    · have hrest := (List.pairwise_append.mp horder).2.1
      exact absurd ((List.pairwise_cons.mp hrest).1 u hu habove.symm) hnot

/-- With `S` skipped before, what is looked at inside of an entry of the same map, from which this
one goes on, is looked at before this one. -/
theorem exists_mem_of_inside (hd : (d.paths []).Nodup)
    (hkeys : ∀ i ∈ docItems d, keyPath i.key ≠ []) (h : docVisits d = as ++ v :: bs)
    (ih : ∀ u ∈ as, (u.made = true ↔ u.path ∉ S)) (hu : u ∈ as)
    (habove : u.item.above = v.item.above) (hpre : u.path <+: v.path) (hne : u.path ≠ v.path)
    (hj : j ∈ docItems d) (hlooked : LookedAt S j) (huj : u.path ∈ j.above)
    (hvj : v.path ∉ j.above) (hvj' : v.path ≠ j.path) : ∃ w ∈ as, w.item = j := by
  have hmem : ∀ w ∈ as, w ∈ docVisits d := fun w hw => h ▸ List.mem_append_left _ hw
  have hitem := mem_items_of_mem_visits (hmem u hu)
  have hinside : ∀ w ∈ docVisits d, w.path ≠ v.path → u.path ∈ w.item.above → w ∈ as :=
    fun w hw => mem_of_mem_above hkeys h hitem habove hpre hne hw
  obtain ⟨w, hw, rfl⟩ : ∃ w ∈ docVisits d, w.item = j := by
    refine exists_visit hj fun w hw hwj => ?_
    have hwv : w.path ≠ v.path := fun heq => hvj (heq ▸ hwj)
    have hwas : w ∈ as := by
      rcases mem_above_or_mem_above hd hj hitem (mem_items_of_mem_visits hw) huj hwj with
        hwu | hwu | hwu
      · rw [habove] at hwu
        obtain ⟨w', hw', heq, -⟩ := exists_mem_of_mem_above hkeys h hwu
        exact visit_unique hd (hmem w' hw') hw heq ▸ hw'
      · exact visit_unique hd (hmem u hu) hw (congrArg Item.path hwu.symm) ▸ hu
      · exact hinside w hw hwv hwu
    exact (ih w hwas).mpr (hlooked _ hwj)
  exact ⟨w, hinside w hw hvj'.symm huj, rfl⟩

/-- An entry of `S` finds its node, if `S` is what has been skipped before. -/
theorem not_made_of_mem (hd : (d.paths []).Nodup) (hkeys : ∀ i ∈ docItems d, keyPath i.key ≠ [])
    (hs : Skippable (docItems d) S) (horder : InOrder S (docVisits d))
    (h : docVisits d = as ++ v :: bs) (ih : ∀ u ∈ as, (u.made = true ↔ u.path ∉ S))
    (hv : v.path ∈ S) : v.made = false := by
  have hvisit : v ∈ docVisits d := h ▸ List.mem_append_right as List.mem_cons_self
  have hitem := mem_items_of_mem_visits hvisit
  have hlooked := lookedAt_of_append hkeys h ih (.inr rfl)
  obtain ⟨j, hj, hlooked', hsub, hvj, hpre, hne⟩ := hs.found v.item hitem hlooked hv
  obtain ⟨y, hy, hyabove, hjy⟩ := exists_sibling hd hitem hj hsub
  have hyv : y.path ≠ v.path := by
    rintro (heq : y.path = v.item.path)
    rcases hjy with rfl | hmem
    · exact hne heq.symm
    · exact hvj (heq ▸ hmem)
  have hlast : ¬Earlier S v.path y.path := by
    rintro ⟨hskip, -⟩
    obtain ⟨hyS, hlen⟩ := hskip hv
    rcases hjy with rfl | hmem
    · exact hne (hpre.eq_of_length_le hlen)
    · exact hlooked' _ hmem hyS
  obtain ⟨y, hy', rfl⟩ := exists_mem_of_not_earlier hd hkeys horder h hy hyabove hyv hlast
  -- either the entry of the map or what is inside of it goes on from here
  have hused : ∃ u ∈ as, v.path <+: u.path := by
    rcases hjy with rfl | hmem
    · exact ⟨y, hy', hpre⟩
    · have hyj := (ne_of_mem_above (hkeys j hj) hj nofun hmem).1
      rcases List.prefix_or_prefix_of_prefix hpre hyj with hle | hge
      · exact ⟨y, hy', hle⟩
      · obtain ⟨u, hu, rfl⟩ :=
          exists_mem_of_inside hd hkeys h ih hy' hyabove hge hyv hj hlooked' hmem hvj hne
        exact ⟨u, hu, hpre⟩
  obtain ⟨u, hu, hvu⟩ := hused
  rw [← Bool.not_eq_true, made_iff_of_append h]
  exact fun hnot => hnot u hu hvu

/-- Any other entry makes its node. -/
theorem made_of_not_mem (hd : (d.paths []).Nodup) (hkeys : ∀ i ∈ docItems d, keyPath i.key ≠ [])
    (hs : Skippable (docItems d) S) (horder : InOrder S (docVisits d))
    (h : docVisits d = as ++ v :: bs) (ih : ∀ u ∈ as, (u.made = true ↔ u.path ∉ S))
    (hv : v.path ∉ S) : v.made = true := by
  rw [made_iff_of_append h]
  -- suppose some `u` before `v` has already used the path
  intro u hu hpre
  have hvisit : v ∈ docVisits d := h ▸ List.mem_append_right as List.mem_cons_self
  have hvisit' : u ∈ docVisits d := h ▸ List.mem_append_left _ hu
  have hitem := mem_items_of_mem_visits hvisit
  have hitem' := mem_items_of_mem_visits hvisit'
  -- what the visits before `v` have in common
  have hbefore : ∀ w ∈ as, Before w v ∧
      (w.item.above = v.item.above → Earlier S w.path v.path) ∧ w.path ≠ v.path := by
    intro w hw
    rw [h] at horder
    exact ⟨before_of_mem h hw, (List.pairwise_append.mp horder).2.2 w hw v List.mem_cons_self,
      path_ne_of_mem hd h hw⟩
  -- the maps around `v` are around `u` too
  have hsub : ∀ q ∈ v.item.above, q ∈ u.item.above := by
    intro q hq
    obtain ⟨hqv, hqne⟩ := ne_of_mem_above (hkeys _ hitem) hitem nofun hq
    rcases (hbefore u hu).1.around q hq (hqv.trans hpre) with hmem | rfl
    · exact hmem
    · exact absurd (hqv.eq_of_length_le hpre.length_le) hqne
  -- so beside `v` there is an item that is `u` or around it
  obtain ⟨y, hy, hyabove, huy⟩ := exists_sibling hd hitem hitem' hsub
  have hyas : ∃ w ∈ as, w.item = y := by
    rcases huy with huy | hmem
    · exact ⟨u, hu, huy⟩
    · obtain ⟨as', bs', rfl⟩ := List.append_of_mem hu
      rw [List.append_assoc] at h
      obtain ⟨w, hw, heq, -⟩ := exists_mem_of_mem_above hkeys h hmem
      have hw' : w ∈ docVisits d := h ▸ List.mem_append_left _ hw
      exact ⟨w, List.mem_append_left _ hw,
        eq_of_path_eq hd (mem_items_of_mem_visits hw') hy heq⟩
  obtain ⟨w, hw, rfl⟩ := hyas
  -- it comes earlier although its path is not the shorter one
  obtain ⟨-, hearlier, hne⟩ := hbefore w hw
  obtain ⟨hskip, hlen⟩ := hearlier hyabove
  have hwS : w.path ∉ S := fun hmem => hv (hskip hmem).1
  have hle := (hlen hwS).resolve_left hv
  rcases huy with huy | hmem
  · rw [show u.path = w.path from congrArg Item.path huy] at hpre
    exact hne (hpre.eq_of_length_le hle).symm
  · have hwu := (ne_of_mem_above (hkeys _ hitem') hitem' nofun hmem).1
    have hwv := List.prefix_of_prefix_length_le hwu hpre hle
    exact hs.made w.item hy v.item hitem (lookedAt_of_append hkeys h ih (.inl hw)) hyabove hwS hv
      hwv hne u.item hitem' (lookedAt_of_append hkeys h ih (.inl hu)) hmem hpre

/-- In the order of `Earlier`, exactly the entries of `S` are skipped. -/
theorem made_iff_of_inOrder (hd : (d.paths []).Nodup) (hkeys : ∀ i ∈ docItems d, keyPath i.key ≠ [])
    (hs : Skippable (docItems d) S) (horder : InOrder S (docVisits d)) (hv : v ∈ docVisits d) :
    v.made = true ↔ v.path ∉ S := by
  suffices hall : ∀ n as (v : Visit) bs, as.length = n → docVisits d = as ++ v :: bs →
      (v.made = true ↔ v.path ∉ S) by
    obtain ⟨as, bs, h⟩ := List.append_of_mem hv
    exact hall as.length as v bs rfl h
  intro n
  induction n using Nat.strong_induction_on with
  | _ n ihn =>
    intro as v bs hlen h
    have ih : ∀ u ∈ as, (u.made = true ↔ u.path ∉ S) := by
      intro u hu
      obtain ⟨as', bs', rfl⟩ := List.append_of_mem hu
      rw [List.append_assoc] at h
      refine ihn as'.length ?_ as' u (bs' ++ v :: bs) rfl h
      rw [← hlen, List.length_append, List.length_cons]
      omega
    by_cases hskip : v.path ∈ S
    · rw [not_made_of_mem hd hkeys hs horder h ih hskip]
      exact iff_of_false Bool.false_ne_true (not_not_intro hskip)
    · exact iff_of_true (made_of_not_mem hd hkeys hs horder h ih hskip) hskip

/-- Where there are entries that can be skipped, nothing is thrown in some order. -/
theorem passed_of_skippable (hd : (d.paths []).Nodup) (hkeys : ∀ i ∈ docItems d, keyPath i.key ≠ [])
    (hs : Skippable (docItems d) S) :
    ∃ d', Reordered d d' ∧ ∀ v ∈ docVisits d', v.Passes .other := by
  obtain ⟨d', hr, harranged⟩ :=
    exists_arranged (Earlier.total S) (fun p q r => Earlier.trans) [] d
  have hd' := hr.nodup hd
  have hkeys' : ∀ i ∈ docItems d', keyPath i.key ≠ [] := fun i hi => hkeys i ((hr.mem_iff i).mpr hi)
  have hs' := hs.congr hr.mem_iff
  have horder : InOrder S (docVisits d') := harranged.pairwise hd' hkeys' nofun
  refine ⟨d', hr, fun v hv => ?_⟩
  have hitem := mem_items_of_mem_visits hv
  have hmade := made_iff_of_inOrder hd' hkeys' hs' horder hv
  have hlooked : LookedAt S v.item := by
    intro q hq
    rcases exists_made_of_mem_above hv hq with hnil | ⟨w, hw, rfl, hmade'⟩
    · cases hnil
    · exact (made_iff_of_inOrder hd' hkeys' hs' horder hw).mp hmade'
  cases hm : v.made with
  | true =>
    exact (Visit.passes_made_iff _ hm).mpr (hs'.ok v.item hitem hlooked (hmade.mp hm))
  | false =>
    have hskip : v.path ∈ S := by
      rw [← not_not (a := v.path ∈ S), ← hmade, hm]
      exact Bool.false_ne_true
    exact (passes_of_not_made hm (hkeys' _ hitem)).mpr (hs'.settable v.item hitem hlooked hskip)

end

/-! ## When the order makes no difference -/

section

variable {d : Entries}

/-- Predictable documents mean the same in every order. -/
theorem orderFree_of_predictable (hd : (d.paths []).Nodup) (h : Predictable (docItems d)) :
    d.OrderFree := by
  obtain ⟨hkeys, ⟨hok, hkept⟩ | hnone⟩ := h
  · intro d' hr
    have hd' := hr.nodup hd
    obtain ⟨t, ht⟩ := exists_readEntries hd hok
    obtain ⟨t', ht'⟩ := exists_readEntries hd' fun i hi => hok i ((hr.mem_iff i).mpr hi)
    rw [readConfigDoc, readConfigDoc, ht, ht']
    refine .same t t' fun p hp => Option.ext fun w => ?_
    rw [leafAt_eq_some_iff hd hkept ht hp, leafAt_eq_some_iff hd' (hkept.congr hr.mem_iff) ht' hp]
    refine exists_congr fun i => and_congr (hr.mem_iff i) (and_congr_right fun _ => ?_)
    rw [maximal_congr hr.mem_iff]
  · have hthrown : ∀ d', Reordered d d' → ∃ e, readEntries new d' = .error e ∧ e ≠ .emptyKey := by
      intro d' hr
      cases ht : readEntries new d' with
      | ok t =>
        have hd' := hr.nodup hd
        have hs := skippable_of_passed hd' ((isOk_readEntries_iff hd').mp ⟨t, ht⟩)
        exact absurd (hs.congr fun i => (hr.mem_iff i).symm) (hnone _)
      | error e =>
        exact ⟨e, rfl, ne_emptyKey_of_readEntries (fun i hi => hkeys i ((hr.mem_iff i).mpr hi)) ht⟩
    intro d' hr
    obtain ⟨e, he, hne⟩ := hthrown d (.refl d)
    obtain ⟨e', he', hne'⟩ := hthrown d' hr
    rw [readConfigDoc, readConfigDoc, he, he']
    exact .thrown e e' hne hne'

/-- A key without an element is reached in some order. -/
theorem Entries.OrderFree.named (h : d.OrderFree) : ∀ i ∈ docItems d, keyPath i.key ≠ [] := by
  intro i hi hkey
  obtain ⟨d', hr, hfront⟩ := exists_atFront hi
  have hempty : readEntries new d' = .error .emptyKey := hfront.readEntries_eq_emptyKey hkey _
  have hagree := h d' hr
  rw [readConfigDoc, readConfigDoc, hempty] at hagree
  generalize readEntries new d = r at hagree
  cases hagree with
  | thrown e e' he he' => exact he' rfl

/-- In no two orders there are different leaves, and in no two orders only one throws. -/
theorem Entries.OrderFree.agree (h : d.OrderFree) {d₁ d₂ : Entries} (h₁ : Reordered d d₁)
    (h₂ : Reordered d d₂) {t : Node} (ht : readEntries new d₁ = .ok t) :
    ∃ t', readEntries new d₂ = .ok t' ∧ ∀ p, p ≠ [] → t.leafAt p = t'.leafAt p := by
  have hagree₁ := h d₁ h₁
  have hagree₂ := h d₂ h₂
  rw [readConfigDoc, readConfigDoc] at hagree₁ hagree₂
  rw [ht] at hagree₁
  cases hread : readEntries new d with
  | error e =>
    rw [hread] at hagree₁
    cases hagree₁
  | ok t₀ =>
    rw [hread] at hagree₁ hagree₂
    cases hread₂ : readEntries new d₂ with
    | error e =>
      rw [hread₂] at hagree₂
      cases hagree₂
    | ok t' =>
      rw [hread₂] at hagree₂
      cases hagree₁ with
      | same _ _ hsame₁ =>
        cases hagree₂ with
        | same _ _ hsame₂ => exact ⟨t', rfl, fun p hp => (hsame₁ p hp).symm.trans (hsame₂ p hp)⟩

/-- The entries inside of an overlapped one are lost if the other one is read first. -/
theorem Entries.OrderFree.kept (hd : (d.paths []).Nodup) (hok : ∀ i ∈ docItems d, i.Ok)
    (h : d.OrderFree) : Kept (docItems d) := by
  rintro i hi ⟨f, hf, hif, hpre, hne⟩ x hx hix hmax
  have hkeys : ∀ d', Reordered d d' → ∀ j ∈ docItems d', keyPath j.key ≠ [] :=
    fun d' hr j hj => (hok j ((hr.mem_iff j).mpr hj)).1
  obtain ⟨d₁, hr₁, hfront₁⟩ := exists_atFront hx
  obtain ⟨d₂, hr₂, hfront₂⟩ := exists_atFront hf
  have hd₁ := hr₁.nodup hd
  have hd₂ := hr₂.nodup hd
  obtain ⟨t, ht⟩ := exists_readEntries hd₁ fun j hj => hok j ((hr₁.mem_iff j).mpr hj)
  obtain ⟨t', ht', hsame⟩ := h.agree hr₁ hr₂ ht
  obtain ⟨as₁, bs₁, happend₁, -⟩ := hfront₁.exists_append (P := []) (hkeys d₁ hr₁) nofun
  obtain ⟨as₂, bs₂, happend₂, has₂⟩ := hfront₂.exists_append (P := []) (hkeys d₂ hr₂) nofun
  have hvisit : ⟨x, true⟩ ∈ docVisits d₁ := by
    rw [docVisits, happend₁]
    exact List.mem_append_right as₁ List.mem_cons_self
  obtain ⟨n, -, hleaf⟩ := exists_leafAt hd₁ ht hvisit fun u hu hxu =>
    hmax u.item ((hr₁.mem_iff _).mpr (mem_items_of_mem_visits hu)) hxu
  have hxne : x.path ≠ [] := by
    obtain ⟨p, -, hpath, -⟩ := exists_dir hx nofun
    rw [hpath]
    exact List.append_ne_nil_of_right_ne_nil p (hok x hx).1
  have hsome : (t'.leafAt x.path).isSome = true := by
    rw [← hsame x.path hxne]
    exact Option.isSome_iff_exists.mpr ⟨_, hleaf⟩
  -- so the entry at the leaf is looked at in the second order, too, and what it is inside of
  obtain ⟨v, hv, hvx, -⟩ := exists_visit_of_leafAt ht' hxne hsome
  have hvitem : v.item = x :=
    eq_of_path_eq hd ((hr₂.mem_iff _).mpr (mem_items_of_mem_visits hv)) hx hvx
  rcases exists_made_of_mem_above hv (hvitem ▸ hix) with hnil | ⟨w, hw, hwi, hmade⟩
  · cases hnil
  · have hbefore : Before ⟨f, true⟩ w := by
      by_contra hnot
      have hwne : w ≠ ⟨f, true⟩ := by
        rintro rfl
        exact hne hwi.symm
      have hmem := mem_of_not_before happend₂ hw hwne hnot
      exact hif (hwi ▸ has₂ w hmem)
    rw [hbefore.used (hwi ▸ hpre)] at hmade
    cases hmade

/-- Documents that mean the same in every order are predictable. -/
theorem predictable_of_orderFree (hd : (d.paths []).Nodup) (h : d.OrderFree) :
    Predictable (docItems d) := by
  refine ⟨h.named, ?_⟩
  by_cases hok : ∀ i ∈ docItems d, i.Ok
  · exact .inl ⟨hok, h.kept hd hok⟩
  · refine .inr fun S hs => ?_
    push Not at hok
    obtain ⟨i, hi, hbad⟩ := hok
    obtain ⟨d₁, hr₁, hpass⟩ := passed_of_skippable hd h.named hs
    obtain ⟨d₂, hr₂, hfront⟩ := exists_atFront hi
    obtain ⟨t, ht⟩ := (isOk_readEntries_iff (hr₁.nodup hd)).mpr hpass
    obtain ⟨t', ht', -⟩ := h.agree hr₁ hr₂ ht
    obtain ⟨e, he⟩ := readEntries_error_of_atFront (hr₂.nodup hd)
      (fun j hj => h.named j ((hr₂.mem_iff j).mpr hj)) hfront hbad
    rw [he] at ht'
    cases ht'

/-- Documents without two entries of one path. -/
theorem orderFree_iff_predictable (hd : (d.paths []).Nodup) :
    d.OrderFree ↔ Predictable (docItems d) :=
  ⟨predictable_of_orderFree hd, orderFree_of_predictable hd⟩

end

/-- The number does not fit, so that both orders throw: a value of this kind is reached whichever of
the two maps makes the nodes. -/
theorem orderFree_iff_predictable_twoMaps :
    let bad : YamlLeaf := .scalar "" "3000000000"
    let d : Entries := .map "a" (.leaf "b/c" bad .nil) (.map "a/b" (.leaf "d" bad .nil) .nil)
    (d.paths []).Nodup ∧ d.OrderFree := by
  intro bad d
  have hd : (d.paths []).Nodup := by decide
  have hitems : docItems d = [⟨["a"], [], [], "a", none⟩,
      ⟨["a", "b", "c"], [["a"]], ["a"], "b/c", some bad⟩, ⟨["a", "b"], [], [], "a/b", none⟩,
      ⟨["a", "b", "d"], [["a", "b"]], ["a/b"], "d", some bad⟩] := rfl
  have hbad : scalarType "3000000000" = none := by decide
  refine ⟨hd, (orderFree_iff_predictable hd).mpr ⟨?_, .inr fun S hs => ?_⟩⟩
  · rw [hitems]
    decide
  · rw [hitems] at hs
    have hnot : ∀ i ∈ docItems d, i.value = some bad → ¬LookedAt S i := by
      intro i hi hvalue hlooked
      rw [hitems] at hi
      by_cases hskip : i.path ∈ S
      · refine hs.settable i hi hlooked hskip ?_
        rw [Item.text, hvalue]
        exact hbad
      · exact ((hs.ok i hi hlooked hskip).2 bad hvalue).1 hbad
    have ha : ["a"] ∈ S := by
      by_contra ha
      refine hnot ⟨["a", "b", "c"], [["a"]], ["a"], "b/c", some bad⟩ ?_ rfl fun q hq => ?_
      · rw [hitems]
        exact .tail _ (.head _)
      · rwa [List.mem_singleton.mp hq]
    have hab : ["a", "b"] ∈ S := by
      by_contra hab
      refine hnot ⟨["a", "b", "d"], [["a", "b"]], ["a/b"], "d", some bad⟩ ?_ rfl fun q hq => ?_
      · rw [hitems]
        exact .tail _ (.tail _ (.tail _ (.head _)))
      · rwa [List.mem_singleton.mp hq]
    -- nothing that is looked at goes on from `a/b`
    obtain ⟨j, hj, hlooked, -, hnot', hpre, hne⟩ :=
      hs.found ⟨["a", "b"], [], [], "a/b", none⟩ (.tail _ (.tail _ (.head _))) nofun hab
    simp only [List.mem_cons, List.not_mem_nil, or_false] at hj
    rcases hj with rfl | rfl | rfl | rfl
    · revert hpre
      decide
    · exact hlooked ["a"] (.head _) ha
    · exact hne rfl
    · exact hnot' (.head _)

/-- A map and a path that goes on from it: which of them is first decides whether what is in the
map is read. -/
theorem compound_key_first_loses_map :
    ∃ d : Entries, (d.paths []).Nodup ∧ ¬d.OrderFree := by
  refine ⟨.map "a" (.leaf "b" (.scalar "" "1") .nil) (.leaf "a/c" (.scalar "" "2") .nil),
    by decide, fun h => ?_⟩
  have ht : readEntries new (.map "a" (.leaf "b" (.scalar "" "1") .nil)
      (.leaf "a/c" (.scalar "" "2") .nil)) =
      .ok ⟨⟨.map, "", []⟩, .cons "a" ⟨.map, "", []⟩
        (.cons "b" ⟨.uint32, "1", []⟩ .nil (.cons "c" ⟨.uint32, "2", []⟩ .nil .nil)) .nil⟩ := by
    decide
  obtain ⟨t, ht', hsame⟩ := h.agree (.refl _) (.swap (.map "a" (.leaf "b" (.scalar "" "1") .nil))
    (.leaf "a/c" (.scalar "" "2")) .nil) ht
  have hread : readEntries new (.leaf "a/c" (.scalar "" "2")
      (.map "a" (.leaf "b" (.scalar "" "1") .nil) .nil)) =
      .ok ⟨⟨.map, "", []⟩, .cons "a" ⟨.string, "", []⟩
        (.cons "c" ⟨.uint32, "2", []⟩ .nil .nil) .nil⟩ := by
    decide
  obtain rfl := Except.ok.inj (hread.symm.trans ht')
  have hleaf := hsame ["a", "b"] (List.cons_ne_nil _ _)
  revert hleaf
  decide

end GazeboRcll
