import GazeboRcll.Config.Setters

/-!
# Writing the host file and reading it back

`YamlConfigurationNode::emit` writes the text of each leaf, `read_config_doc` finds out a type
for it again. The emitter and the parser of YAML are taken as inverse to each other, so that a
file is a document, and an empty file none.

`roundTrip_iff`: the tree is the same again exactly if each leaf has the type of its text. A list
has no text, and the type of a text that was set to a list is the one of its first element.
-/

namespace GazeboRcll

/-! ## Writing -/

namespace Node

/-- The entries that `emit` writes between `BeginMap` and `EndMap`. -/
def emitEntries : Children String NodeValue → Entries
  | .nil => .nil
  | .cons key v .nil rest => .leaf key (.scalar "" v.scalar) (emitEntries rest)
  | .cons key _ (.cons k v cs r) rest => .map key (emitEntries (.cons k v cs r)) (emitEntries rest)

/-- `emit`: the document in the file, if there is one. -/
def emit (t : Node) : Option YamlDoc :=
  if t.HasChildren then some (.map (emitEntries t.children)) else none

/-- `read_yaml_file`, as `read_yaml_config` uses it for a host file that is there. -/
def readBack : Option YamlDoc → Except ConfigError Node
  | none => .ok root
  | some doc => readConfigDoc doc

/-- What was written reads back the same: the leaf paths, and the type and the value of each. -/
def RoundTrip (t : Node) : Prop :=
  ∃ t', readBack t.emit = .ok t' ∧ ∀ p, p ≠ [] →
    (t'.leafAt p).map NodeValue.visible = (t.leafAt p).map NodeValue.visible

end Node

/-! ## Reading -/

/-- A leaf as it is read from what is written for it. -/
def NodeValue.reread (v : NodeValue) : Option NodeValue :=
  (scalarType v.scalar).map fun type => ⟨type, v.scalar, []⟩

namespace Node

variable {t t' c : Node} {key text : String} {isScalar : Bool}
  {fresh : String → Except ConfigError Node} {v : NodeValue} {cs rest : Children String NodeValue}

/-- An entry with a plain key that is not there yet. -/
theorem atKey_enter_item (hkey : Strings.IsItem '/' key) (hfree : t.children.find? key = none) :
    t.atKey key (enter isScalar text fresh) = (fresh key).map (t.addChild key) := by
  have hpath : keyPath key = [] ++ [key] := if_neg hkey.2
  rw [atKey_eq hpath]
  show ((enter isScalar text fresh key t).map fun n => n) = _
  rw [enter, hfree]
  show ((fresh key).map (t.addChild key)).map (fun n => n) = _
  cases fresh key <;> rfl

/-- A leaf that was written is read as one entry. -/
theorem readEntries_emit_leaf (hkey : Strings.IsItem '/' key)
    (hfree : t.children.find? key = none) (v : NodeValue) (rest : Children String NodeValue) :
    readEntries t (emitEntries (.cons key v .nil rest)) =
      (YamlLeaf.scalar "" v.scalar).read key >>= fun c =>
        readEntries (t.addChild key c) (emitEntries rest) := by
  rw [emitEntries, readEntries, atKey_enter_item hkey hfree]
  cases (YamlLeaf.scalar "" v.scalar).read key <;> rfl

/-- A node with children that was written is read as a map. -/
theorem readEntries_emit_map (hkey : Strings.IsItem '/' key)
    (hfree : t.children.find? key = none) (v : NodeValue) (hcs : cs ≠ .nil)
    (rest : Children String NodeValue) :
    readEntries t (emitEntries (.cons key v cs rest)) =
      readEntries newMap (emitEntries cs) >>= fun c =>
        readEntries (t.addChild key c) (emitEntries rest) := by
  cases cs with
  | nil => exact absurd rfl hcs
  | cons k w cs r =>
    rw [emitEntries, readEntries, atKey_enter_item hkey hfree]
    show (readEntries newMap _).map _ >>= _ = _
    cases readEntries newMap (emitEntries (.cons k w cs r)) <;> rfl

/-- The node that is read back from the text of a leaf. -/
theorem read_of_reread {w : NodeValue} (h : v.reread = some w) (name : String) :
    (YamlLeaf.scalar "" v.scalar).read name = .ok ⟨w, .nil⟩ := by
  obtain ⟨type, htype, rfl⟩ := Option.map_eq_some_iff.mp h
  rw [YamlLeaf.read, YamlLeaf.construct,
    NodeValue.determineScalarType_of_ne_sequence (v := ⟨.unknown, v.scalar, []⟩) nofun, htype]
  rfl

/-- A text without a type cannot be read back. -/
theorem read_of_not_reread (h : v.reread = none) (name : String) :
    (YamlLeaf.scalar "" v.scalar).read name = .error (.valueOrType name) := by
  have htype : scalarType v.scalar = none := Option.map_eq_none_iff.mp h
  rw [YamlLeaf.read, YamlLeaf.construct,
    NodeValue.determineScalarType_of_ne_sequence (v := ⟨.unknown, v.scalar, []⟩) nofun, htype]
  rfl

/-- The leaves of `t'` are those of `t` and the ones read for `cs`. -/
structure Rewritten (cs : Children String NodeValue) (t t' : Node) : Prop where
  inside : ∀ k d, cs.find? k = some d → ∀ p,
    (t'.leafAt (k :: p)).map some = (d.leafAt p).map NodeValue.reread
  outside : ∀ k, cs.find? k = none → ∀ p, t'.leafAt (k :: p) = t.leafAt (k :: p)

/-- The leaves of a child that was added are its own. -/
theorem leafAt_addChild_self (t : Node) (k : String) (c : Node) (p : List String) :
    (t.addChild k c).leafAt (k :: p) = c.leafAt p := by
  rw [KeyTree.leafAt_cons, addChild, Children.find?_insert_self]
  rfl

/-- Other children keep their leaves. -/
theorem leafAt_addChild_of_ne (t : Node) {k k' : String} (h : k' ≠ k) (c : Node)
    (p : List String) : (t.addChild k c).leafAt (k' :: p) = t.leafAt (k' :: p) := by
  rw [KeyTree.leafAt_cons, KeyTree.leafAt_cons, addChild, Children.find?_insert_of_ne _ h]

/-- The first of the children was read as `c`, and then the rest. -/
theorem Rewritten.cons (hsorted : (Children.cons key v cs rest).Sorted)
    (hc : ∀ p, (c.leafAt p).map some = (KeyTree.leafAt ⟨v, cs⟩ p).map NodeValue.reread)
    (h : Rewritten rest (t.addChild key c) t') : Rewritten (.cons key v cs rest) t t' where
  inside k d hd p := by
    rw [Children.find?] at hd
    by_cases hk : k = key
    · subst hk
      rw [if_pos rfl] at hd
      cases hd
      have hnone : rest.find? k = none := by
        rw [Children.find?_eq_none_iff]
        exact fun hmem => lt_irrefl k (hsorted.1 k hmem)
      rw [h.outside k hnone, leafAt_addChild_self]
      exact hc p
    · rw [if_neg hk] at hd
      exact h.inside k d hd p
  outside k hk p := by
    rw [Children.find?] at hk
    by_cases heq : k = key
    · rw [if_pos heq] at hk
      cases hk
    · rw [if_neg heq] at hk
      rw [h.outside k hk, leafAt_addChild_of_ne t heq]

/-- The names of all nodes below the root can stand in a path. -/
def Named (t : Node) : Prop :=
  ∀ p, (t.valueAt p).isSome = true → ∀ k ∈ p, Strings.IsItem '/' k

/-- The first child of a tree with names that can be written has such a name, and so have those
below it. -/
theorem Named.first {w : NodeValue} (h : Named ⟨w, .cons key v cs rest⟩) :
    Strings.IsItem '/' key ∧ Named ⟨v, cs⟩ := KeyTree.AllKeys.first h

theorem Named.others (hsorted : (Children.cons key v cs rest).Sorted) {w : NodeValue}
    (h : Named ⟨w, .cons key v cs rest⟩) : Named ⟨w, rest⟩ := KeyTree.AllKeys.others hsorted h

/-- An entry that was made does not get into the way of those after it. -/
theorem find?_addChild_of_mem (hsorted : (Children.cons key v cs rest).Sorted)
    (hfree : ∀ k ∈ (Children.cons key v cs rest).keys, t.children.find? k = none) (c : Node)
    {k : String} (hk : k ∈ rest.keys) : (t.addChild key c).children.find? k = none :=
  (Children.find?_insert_of_ne _ (hsorted.1 k hk).ne' c).trans
    (hfree k (List.mem_cons_of_mem key hk))

/-- Children that were read have given the node children. -/
theorem Rewritten.leafAt (hcs : cs ≠ .nil) (h : Rewritten cs newMap c) (v : NodeValue)
    (p : List String) :
    (c.leafAt p).map some = (KeyTree.leafAt ⟨v, cs⟩ p).map NodeValue.reread := by
  cases p with
  | nil =>
    obtain ⟨p, d, hd, hleaf⟩ := KeyTree.exists_leaf (⟨v, cs⟩ : Node)
    cases p with
    | nil =>
      cases hd
      exact absurd hcs hleaf
    | cons k p =>
      obtain ⟨e, he, hd⟩ := Option.bind_eq_some_iff.mp hd
      have hat : e.leafAt p = some d.value := by
        rw [KeyTree.leafAt, hd]
        obtain ⟨w, f⟩ := d
        obtain rfl : f = .nil := not_not.mp hleaf
        rfl
      have hinside := h.inside k e he p
      rw [hat] at hinside
      obtain ⟨w, hw, -⟩ := Option.map_eq_some_iff.mp hinside
      rw [KeyTree.leafAt_nil_of_hasChildren (KeyTree.hasChildren_of_leafAt hw),
        KeyTree.leafAt_nil_of_hasChildren (t := ⟨v, cs⟩) hcs]
      rfl
  | cons k p =>
    rw [KeyTree.leafAt_cons ⟨v, cs⟩]
    cases hd : cs.find? k with
    | none =>
      rw [h.outside k hd]
      rfl
    | some d => exact h.inside k d hd p

/-- What is written for `cs` was read. -/
theorem rewritten_of_readEntries (hsorted : cs.Sorted) (hnamed : Named ⟨v, cs⟩)
    (hfree : ∀ k ∈ cs.keys, t.children.find? k = none)
    (ht : readEntries t (emitEntries cs) = .ok t') : Rewritten cs t t' := by
  induction cs generalizing t t' v with
  | nil =>
    cases ht
    refine ⟨fun k d hd => ?_, fun k hk p => rfl⟩
    cases hd
  | cons key w cs rest ihc ih =>
    have hkey := hnamed.first.1
    have hnone := hfree key List.mem_cons_self
    have hrest : ∀ c, readEntries (t.addChild key c) (emitEntries rest) = .ok t' →
        Rewritten rest (t.addChild key c) t' := fun c hc =>
      ih hsorted.2.2 (hnamed.others hsorted)
        (fun k hk => find?_addChild_of_mem hsorted hfree c hk) hc
    by_cases hcs : cs = .nil
    · subst hcs
      rw [readEntries_emit_leaf hkey hnone] at ht
      cases hw : w.reread with
      | none =>
        rw [read_of_not_reread hw] at ht
        cases ht
      | some w' =>
        rw [read_of_reread hw] at ht
        refine Rewritten.cons hsorted (fun p => ?_) (hrest ⟨w', .nil⟩ ht)
        cases p with
        | nil => exact congrArg some hw.symm
        | cons k p => rfl
    · rw [readEntries_emit_map hkey hnone w hcs] at ht
      obtain ⟨c, hc, ht⟩ := exists_of_bind_eq_ok ht
      have hinner := ihc hsorted.2.1 hnamed.first.2 (fun k hk => rfl) hc
      exact Rewritten.cons hsorted (hinner.leafAt hcs w) (hrest c ht)

/-- It can be read if every text in it has a type. -/
theorem exists_readEntries (hsorted : cs.Sorted) (hnamed : Named ⟨v, cs⟩)
    (hfree : ∀ k ∈ cs.keys, t.children.find? k = none)
    (htyped : ∀ p w, p ≠ [] → KeyTree.leafAt ⟨v, cs⟩ p = some w → w.reread.isSome = true) :
    ∃ t', readEntries t (emitEntries cs) = .ok t' := by
  induction cs generalizing t v with
  | nil => exact ⟨t, rfl⟩
  | cons key w cs rest ihc ih =>
    have hkey := hnamed.first.1
    have hnone := hfree key List.mem_cons_self
    have hfirst : ∀ p w', KeyTree.leafAt ⟨w, cs⟩ p = some w' → w'.reread.isSome = true := by
      intro p w' hw'
      refine htyped (key :: p) w' nofun ?_
      have hfind : (Children.cons key w cs rest).find? key = some ⟨w, cs⟩ := if_pos rfl
      rw [KeyTree.leafAt_cons, hfind]
      exact hw'
    have hrest : ∀ p w', p ≠ [] → KeyTree.leafAt ⟨v, rest⟩ p = some w' →
        w'.reread.isSome = true := by
      intro p w' hp hw'
      cases p with
      | nil => exact absurd rfl hp
      | cons k p =>
        refine htyped (k :: p) w' nofun ?_
        rw [KeyTree.leafAt_cons] at hw' ⊢
        obtain ⟨c, hc, hw'⟩ := Option.bind_eq_some_iff.mp hw'
        rw [Children.find?_cons_of_find?_rest hsorted hc]
        exact hw'
    -- the rest, whatever the first child was read as
    have hgo : ∀ c, ∃ t', readEntries (t.addChild key c) (emitEntries rest) = .ok t' := fun c =>
      ih hsorted.2.2 (hnamed.others hsorted)
        (fun k hk => find?_addChild_of_mem hsorted hfree c hk) hrest
    by_cases hcs : cs = .nil
    · subst hcs
      obtain ⟨w', hw'⟩ := Option.isSome_iff_exists.mp (hfirst [] w rfl)
      rw [readEntries_emit_leaf hkey hnone, read_of_reread hw']
      exact hgo ⟨w', .nil⟩
    · obtain ⟨c, hc⟩ := ihc (t := newMap) hsorted.2.1 hnamed.first.2 (fun k hk => rfl)
        fun p w' _ hw' => hfirst p w' hw'
      rw [readEntries_emit_map hkey hnone w hcs, hc]
      exact hgo c

/-- Every text has the type that the leaf has. -/
def Typed (t : Node) : Prop :=
  ∀ p, p ≠ [] → ∀ v, t.leafAt p = some v → scalarType v.scalar = some v.type

/-- A leaf looks the same after it was read back exactly if its type is the one of its text. -/
theorem visible_of_reread {v w : NodeValue} (h : v.reread = some w) :
    w.visible = v.visible ↔ scalarType v.scalar = some v.type := by
  obtain ⟨type, htype, rfl⟩ := Option.map_eq_some_iff.mp h
  have hne : type ≠ .sequence := by
    rintro rfl
    cases isScalar_of_scalarType htype
  have hread : (NodeValue.mk type v.scalar []).reading = .text v.scalar := if_neg hne
  rw [htype, Option.some_inj, NodeValue.visible, NodeValue.visible, hread, Prod.mk.injEq]
  constructor
  · exact fun heq => heq.1
  · rintro rfl
    exact ⟨rfl, (if_neg hne).symm⟩

/-- A tree of nodes with names comes back if its leaves are typed. -/
theorem roundTrip_iff_typed (hsorted : t.Sorted) (hnamed : t.Named) :
    t.RoundTrip ↔ t.Typed := by
  obtain ⟨v, cs⟩ := t
  by_cases hcs : cs = .nil
  -- an empty tree is written as a null document
  · subst hcs
    refine iff_of_true ⟨root, rfl, fun p hp => ?_⟩ fun p hp w hw => ?_
    · cases p with
      | nil => exact absurd rfl hp
      | cons k p => rfl
    · cases p with
      | nil => exact absurd rfl hp
      | cons k p => cases hw
  · have hemit : emit ⟨v, cs⟩ = some (.map (emitEntries cs)) := if_pos hcs
    have hback : readBack (emit ⟨v, cs⟩) = readEntries new (emitEntries cs) := by
      rw [hemit]
      rfl
    rw [RoundTrip, hback]
    constructor
    -- what is seen at a leaf that was read again tells its type
    · rintro ⟨t', ht', hsame⟩ p hp w hw
      have hread := rewritten_of_readEntries hsorted hnamed (fun k hk => rfl) ht'
      cases p with
      | nil => exact absurd rfl hp
      | cons k p =>
        have hvisible := hsame (k :: p) hp
        rw [hw] at hvisible
        rw [KeyTree.leafAt_cons] at hw
        obtain ⟨d, hd, hw⟩ := Option.bind_eq_some_iff.mp hw
        have hinside := hread.inside k d hd p
        rw [hw] at hinside
        obtain ⟨w', hw', hreread⟩ := Option.map_eq_some_iff.mp hinside
        rw [hw'] at hvisible
        exact (visible_of_reread hreread.symm).mp (Option.some.inj hvisible)
    -- the file can be read, and it has the leaves that were written
    · intro htyped
      obtain ⟨t', ht'⟩ := exists_readEntries (t := new) hsorted hnamed (fun k hk => rfl)
        fun p w hp hw => by
          rw [NodeValue.reread, htyped p hp w hw]
          rfl
      have hread := rewritten_of_readEntries hsorted hnamed (fun k hk => rfl) ht'
      refine ⟨t', ht', fun p hp => ?_⟩
      cases p with
      | nil => exact absurd rfl hp
      | cons k p =>
        have htype := htyped (k :: p) hp
        rw [KeyTree.leafAt_cons ⟨v, cs⟩] at htype ⊢
        cases hd : cs.find? k with
        | none =>
          rw [hread.outside k hd]
          rfl
        | some d =>
          have hinside := hread.inside k d hd p
          rw [hd] at htype
          show _ = (d.leafAt p).map NodeValue.visible
          cases hw : d.leafAt p with
          | none =>
            rw [hw] at hinside
            rw [Option.map_eq_none_iff.mp hinside]
          | some w =>
            rw [hw] at hinside
            obtain ⟨w', hw', hreread⟩ := Option.map_eq_some_iff.mp hinside
            rw [hw']
            exact congrArg some ((visible_of_reread hreread.symm).mpr (htype w hw))

/-! ## Erasing -/

variable {q : List String}

/-- Erasing only takes away: what is left is as before, and what is a leaf was one. -/
theorem valueAt_of_eraseFrom (h : t.Sorted) {p : List String}
    (hv : (t.eraseFrom q).valueAt p = some v) : t.valueAt p = some v := by
  induction q generalizing t p with
  | nil => exact hv
  | cons pel q ih =>
    rw [eraseFrom] at hv
    cases hc : t.children.find? pel with
    | none => rwa [hc] at hv
    | some c =>
      rw [hc] at hv
      dsimp only at hv
      cases p with
      | nil => split_ifs at hv <;> exact hv
      | cons k p =>
        by_cases hk : k = pel
        · subst hk
          rw [KeyTree.valueAt_cons, hc]
          split_ifs at hv
          · rw [KeyTree.valueAt_setChild_self] at hv
            exact ih (Children.Sorted.find? h hc) hv
          · rw [KeyTree.valueAt_cons, Children.Sorted.find?_erase_self h] at hv
            cases hv
        · split_ifs at hv
          · rwa [KeyTree.valueAt_setChild_of_ne t hk] at hv
          · rw [KeyTree.valueAt_cons, Children.find?_erase_of_ne _ hk] at hv
            rwa [KeyTree.valueAt_cons]

theorem sorted_eraseFrom (h : t.Sorted) (q : List String) : (t.eraseFrom q).Sorted := by
  induction q generalizing t with
  | nil => exact h
  | cons pel q ih =>
    rw [eraseFrom]
    cases hc : t.children.find? pel with
    | none => exact h
    | some c =>
      dsimp only
      split_ifs
      · exact KeyTree.Sorted.setChild h pel (ih (Children.Sorted.find? h hc))
      · exact Children.Sorted.erase h pel

theorem erase_eq_ok {path : String} (h : t.erase path = .ok t') :
    t' = t.eraseFrom (strSplit path) := by
  obtain ⟨n, -, h⟩ := exists_of_bind_eq_ok h
  by_cases hn : n.HasChildren
  · rw [if_pos hn] at h
    cases h
  · rw [if_neg hn] at h
    exact (Except.ok.inj h).symm

/-! ## Setting -/

variable {path : String} {i : NodeInput}

/-- Setting a value where others are below makes no difference but for the node that is looked up.
-/
theorem setInput_of_occupied (h : t.Occupied path) :
    (t.setInput path i).1 = (t.findOrInsert (strSplit path)).1 ∧
      (t.valueAt (strSplit path)).isSome = true := by
  cases hn : t.get? (strSplit path) with
  | none =>
    rw [Occupied, hn] at h
    exact absurd rfl h
  | some n =>
    rw [Occupied, hn] at h
    refine ⟨?_, by rw [KeyTree.valueAt, hn]; rfl⟩
    rw [setInput, setWith_of_hasChildren hn h]

/-- Setting makes no nodes but those along the path. -/
theorem prefix_or_valueAt_of_setInput {p : List String}
    (h : ((t.setInput path i).1.valueAt p).isSome = true) :
    p <+: strSplit path ∨ (t.valueAt p).isSome = true := by
  by_cases hp : p <+: strSplit path
  · exact .inl hp
  · refine .inr ?_
    by_cases hocc : t.Occupied path
    · rwa [(setInput_of_occupied hocc).1, valueAt_findOrInsert_aside t hp] at h
    · rwa [setInput, valueAt_setWith_aside hocc hp] at h

theorem sorted_setInput (h : t.Sorted) : (t.setInput path i).1.Sorted := by
  by_cases hocc : t.Occupied path
  · rw [(setInput_of_occupied hocc).1]
    exact (sorted_findOrInsert h _).1
  · rw [setInput, setWith_of_childless hocc]
    exact KeyTree.Sorted.put (sorted_findOrInsert h _).1 _ trivial

end Node

/-! ## Runs of operations -/

/-- A call of a setter or of `erase`, as far as it concerns the tree of the host file. -/
inductive HostOp where
  | set (path : String) (i : NodeInput)
  | erase (path : String)
deriving DecidableEq, Repr

namespace HostOp

/-- The tree after an operation, also after one that has thrown. -/
def run (t : Node) : HostOp → Node
  | set path i => (t.setInput path i).1
  | erase path =>
    match t.erase path with
    | .ok t' => t'
    | .error _ => t

end HostOp

/-- The tree of the host file after some operations, from an empty one. -/
def hostTree (ops : List HostOp) : Node := ops.foldl HostOp.run Node.root

namespace HostOp

variable {t : Node}

/-- Erasing changes nothing, or it takes away the path. -/
theorem run_erase (t : Node) (path : String) :
    (erase path).run t = t ∨ (erase path).run t = t.eraseFrom (strSplit path) := by
  rw [run]
  cases h : t.erase path with
  | error e => exact .inl rfl
  | ok t' => exact .inr (Node.erase_eq_ok h)

theorem sorted_run (h : t.Sorted) (op : HostOp) : (op.run t).Sorted := by
  cases op with
  | set path i => exact Node.sorted_setInput h
  | erase path =>
    rcases run_erase t path with heq | heq
    · rwa [heq]
    · rw [heq]
      exact Node.sorted_eraseFrom h _

/-- No operation makes a key that cannot stand in a path. -/
theorem allKeys_run {Q : String → Prop} (hQ : ∀ k, Strings.IsItem '/' k → Q k) (h : t.Sorted)
    (hkeys : KeyTree.AllKeys Q t) (op : HostOp) : KeyTree.AllKeys Q (op.run t) := by
  intro p hp k hk
  cases op with
  | set path i =>
    rcases Node.prefix_or_valueAt_of_setInput hp with hpre | hsome
    · exact hQ k (Strings.isItem_of_mem_split (hpre.subset hk))
    · exact hkeys p hsome k hk
  | erase path =>
    rcases run_erase t path with heq | heq
    · rw [heq] at hp
      exact hkeys p hp k hk
    · rw [heq] at hp
      obtain ⟨v, hv⟩ := Option.isSome_iff_exists.mp hp
      exact hkeys p (by rw [Node.valueAt_of_eraseFrom h hv]; rfl) k hk

theorem named_run (h : t.Sorted) (hnamed : t.Named) (op : HostOp) : (op.run t).Named :=
  allKeys_run (fun _ hk => hk) h hnamed op

end HostOp

/-- What holds of the empty tree and is kept by each operation of a run. -/
theorem hostTree_induct {motive : Node → Prop} {ops : List HostOp} (hroot : motive Node.root)
    (hstep : ∀ op ∈ ops, ∀ t, motive t → motive (op.run t)) : motive (hostTree ops) := by
  suffices ∀ t, motive t → motive (ops.foldl HostOp.run t) from this Node.root hroot
  intro t ht
  induction ops generalizing t with
  | nil => exact ht
  | cons op ops ih =>
    rw [List.foldl_cons]
    exact ih (fun op' hop => hstep op' (List.mem_cons_of_mem op hop)) _
      (hstep op List.mem_cons_self t ht)

/-- The keys of the host tree are in their order. -/
theorem sorted_hostTree (ops : List HostOp) : (hostTree ops).Sorted :=
  hostTree_induct trivial fun op _ _ h => HostOp.sorted_run h op

/-- The names in the host tree can be written. -/
theorem named_hostTree (ops : List HostOp) : (hostTree ops).Named := by
  have hroot : Node.root.Named := KeyTree.AllKeys.childless _ _
  have hboth : (hostTree ops).Sorted ∧ (hostTree ops).Named :=
    hostTree_induct (motive := fun t => t.Sorted ∧ t.Named) ⟨trivial, hroot⟩ fun op _ t h =>
      ⟨HostOp.sorted_run h.1 op, HostOp.named_run h.1 h.2 op⟩
  exact hboth.2

/-- What is written for the host file reads back the same if and only if every leaf has the type
of its text. -/
theorem roundTrip_iff (ops : List HostOp) :
    (hostTree ops).RoundTrip ↔
      ∀ p, p ≠ [] → ∀ v, (hostTree ops).leafAt p = some v → scalarType v.scalar = some v.type :=
  Node.roundTrip_iff_typed (sorted_hostTree ops) (named_hostTree ops)

/-- A list is written as an empty text. -/
theorem list_not_read_back :
    ¬ (hostTree [.set "/a" (Setter.strings ["x"]).input]).RoundTrip := by
  rw [Node.roundTrip_iff_typed (sorted_hostTree _) (named_hostTree _)]
  intro htyped
  have htype := htyped ["a"] nofun ⟨.sequence, "", ["x"]⟩ (by decide)
  revert htype
  decide

end GazeboRcll
