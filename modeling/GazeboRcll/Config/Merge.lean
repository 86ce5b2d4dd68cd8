import GazeboRcll.Config.Leafs
import Mathlib.Data.List.Induction

/-!
# Merging configuration documents

`YamlConfigurationNode::operator+=`, with which `read_yaml_config` adds one document after the
other to the root. A scalar takes the text of the node that is added; every other node keeps
its value, and only its children are gone through.

`settled` tells what is at a path after a sequence of documents, and `laterOverrides_iff` when
that is what the last document says.
-/

namespace GazeboRcll

namespace Node

/-- What `operator+=` does with a scalar node. -/
def overwrite (name : String) (t : Node) (n : NodeValue) : Except ConfigError Node :=
  if n.type.isScalar then
    (t.value.setScalar name n.scalar).toExcept.map fun v => { t with value := v }
  else .error (.overwriteScalar name)

/-- The loop of `operator+=` over the children of another node. -/
def addChildren (name : String) (t : Node) : Children String NodeValue → Except ConfigError Node
  | .nil => .ok t
  | .cons k v cs rest => do
    let t ← (
      -- a child with this name is taken for the root of a document
      if k = "root" then
        if t.value.type.isScalar then overwrite name t v else addChildren name t cs
      else
        -- the copy of a node has no children
        let c : Node := (t.children.find? k).getD ⟨v, .nil⟩
        (if c.value.type.isScalar then overwrite k c v else addChildren k c cs).map
          fun c => t.setChild k c)
    addChildren name t rest

/-- `operator+=` with a document, whose name is "root". -/
def addDocument (root doc : Node) : Except ConfigError Node :=
  if root.value.type.isScalar then overwrite "root" root doc.value
  else addChildren "root" root doc.children

/-- What a sequence of documents makes of an empty root. -/
def mergeAll (docs : List Node) : Except ConfigError Node := docs.foldlM addDocument root

/-- One child of another node, beside the child of the same name if there is one. -/
def mergeChild (k : String) (c : Option Node) (d : Node) : Except ConfigError Node :=
  let c : Node := c.getD ⟨d.value, .nil⟩
  if c.value.type.isScalar then overwrite k c d.value else addChildren k c d.children

variable {t t' : Node} {name k : String} {v : NodeValue} {cs rest : Children String NodeValue}

/-- What is below a child with the name of the root goes to the node itself. -/
theorem addChildren_cons_root (h : addChildren name t (.cons "root" v cs rest) = .ok t')
    (ht : t.value.type.isScalar = false) :
    ∃ u, addChildren name t cs = .ok u ∧ addChildren name u rest = .ok t' := by
  rw [addChildren, if_pos rfl, if_neg (by rw [ht]; exact Bool.false_ne_true)] at h
  exact exists_of_bind_eq_ok h

/-- Any other child is merged with the child that has its name. -/
theorem addChildren_cons_of_ne (hk : k ≠ "root")
    (h : addChildren name t (.cons k v cs rest) = .ok t') :
    ∃ c, mergeChild k (t.children.find? k) ⟨v, cs⟩ = .ok c ∧
      addChildren name (t.setChild k c) rest = .ok t' := by
  rw [addChildren, if_neg hk] at h
  obtain ⟨u, hu, h⟩ := exists_of_bind_eq_ok h
  change (mergeChild k (t.children.find? k) ⟨v, cs⟩).map (fun c => t.setChild k c) = .ok u at hu
  cases hc : mergeChild k (t.children.find? k) ⟨v, cs⟩ with
  | error e =>
    rw [hc] at hu
    cases hu
  | ok c =>
    rw [hc] at hu
    cases hu
    exact ⟨c, rfl, h⟩

/-- A scalar that was overwritten is a scalar with the new text. -/
theorem overwrite_eq_ok {n : NodeValue} (ht : t.value.type.isScalar = true)
    (h : overwrite name t n = .ok t') :
    n.type.isScalar = true ∧ t'.value.type.isScalar = true ∧ t'.value.scalar = n.scalar ∧
      t'.children = t.children := by
  have hseq : t.value.type ≠ .sequence := by
    intro heq
    rw [heq] at ht
    cases ht
  rw [overwrite] at h
  split_ifs at h with hn
  rw [NodeValue.setScalar_of_ne_sequence hseq] at h
  cases htype : scalarType n.scalar with
  | none =>
    rw [htype] at h
    cases h
  | some type =>
    rw [htype] at h
    cases h
    exact ⟨hn, isScalar_of_scalarType htype, rfl, rfl⟩

/-! ## What holds of every merged tree -/

/-- No child is called "root", and a scalar has no children. -/
structure Merged (t : Node) : Prop where
  names : ∀ p, "root" ∈ p → t.valueAt p = none
  scalars : ∀ p n, t.get? p = some n → n.value.type.isScalar = true → ¬ n.HasChildren

/-- A child of a merged node is one. -/
theorem Merged.find? (h : Merged t) {c : Node} (hc : t.children.find? k = some c) : Merged c where
  names p hp := by
    have hnone := h.names (k :: p) (List.mem_cons_of_mem k hp)
    rwa [KeyTree.valueAt_cons, hc] at hnone
  scalars p n hn := by
    refine h.scalars (k :: p) n ?_
    rw [KeyTree.get?_cons, hc]
    exact hn

/-- A merged child can be set at a node that is no scalar. -/
theorem Merged.setChild (h : Merged t) (ht : t.value.type.isScalar = false) (hk : k ≠ "root")
    {c : Node} (hc : Merged c) : Merged (t.setChild k c) where
  names p hp := by
    cases p with
    | nil => cases hp
    | cons k' p =>
      by_cases heq : k' = k
      · subst heq
        rw [KeyTree.valueAt_setChild_self]
        exact hc.names p ((List.mem_cons.mp hp).resolve_left (Ne.symm hk))
      · rw [KeyTree.valueAt_setChild_of_ne t heq]
        exact h.names _ hp
  scalars p n hn hscalar := by
    cases p with
    | nil =>
      cases hn
      exact absurd (ht.symm.trans hscalar) Bool.false_ne_true
    | cons k' p =>
      by_cases heq : k' = k
      · subst heq
        rw [KeyTree.get?_setChild_self] at hn
        exact hc.scalars p n hn hscalar
      · rw [KeyTree.get?_setChild_of_ne t heq] at hn
        exact h.scalars _ n hn hscalar

/-- A node without children is merged. -/
theorem merged_childless (v : NodeValue) : Merged ⟨v, .nil⟩ where
  names p hp := by
    cases p with
    | nil => cases hp
    | cons k p => rfl
  scalars p n hn _ := by
    cases p with
    | nil =>
      cases hn
      exact fun h => h rfl
    | cons k p => cases hn

/-- The value of a node with children never changes, and what is merged stays so. -/
theorem Merged.addChildren (hm : Merged t) (ht : t.value.type.isScalar = false)
    (h : addChildren name t cs = .ok t') : Merged t' ∧ t'.value = t.value := by
  induction cs generalizing t t' name with
  | nil =>
    cases h
    exact ⟨hm, rfl⟩
  | cons k v cs rest ihcs ihrest =>
    by_cases hk : k = "root"
    · subst hk
      obtain ⟨u, hu, h⟩ := addChildren_cons_root h ht
      obtain ⟨hmu, hvu⟩ := ihcs hm ht hu
      obtain ⟨hm', hv'⟩ := ihrest hmu (hvu ▸ ht) h
      exact ⟨hm', hv'.trans hvu⟩
    · obtain ⟨c', hc', h⟩ := addChildren_cons_of_ne hk h
      -- the child of this name, or the new one that `operator+=` makes
      have hc : Merged ((t.children.find? k).getD ⟨v, .nil⟩) := by
        cases hfind : t.children.find? k with
        | none => exact merged_childless v
        | some c => exact hm.find? hfind
      have hmc : Merged c' := by
        rw [mergeChild] at hc'
        split_ifs at hc' with hscalar
        · obtain ⟨-, hscalar', -, hchildren⟩ := overwrite_eq_ok hscalar hc'
          -- an overwritten scalar stays a leaf
          have hleaf : ¬ c'.HasChildren := by
            rw [KeyTree.HasChildren, hchildren]
            exact hc.scalars [] _ rfl hscalar
          obtain ⟨w, f⟩ := c'
          obtain rfl : f = .nil := not_not.mp hleaf
          exact merged_childless w
        · exact (ihcs hc (Bool.eq_false_iff.mpr hscalar) hc').1
      obtain ⟨hm', hv'⟩ := ihrest (hm.setChild ht hk hmc) ht h
      exact ⟨hm', hv'⟩

/-! ## One document -/

/-- What a merge may look at: whether a value is a scalar, and what it reads. -/
abbrev View := Bool × Reading

def viewAt (t : Node) (p : List String) : Option View :=
  (t.valueAt p).map fun v => (v.type.isScalar, v.reading)

/-- What comes of two values that meet: only a scalar takes the new one. -/
def combine : Option View → Option View → Option View
  | none, d => d
  | some r, none => some r
  | some r, some d => if r.1 then some d else some r

/-- The document has a node where the merged tree has a scalar: what is below is lost. -/
def Blocked (t d : Node) (p : List String) : Prop :=
  ∃ w w', d.viewAt p = some w ∧ combine (t.viewAt p) (some w) = some w' ∧ w'.1 = true

/-- Nothing overrides nothing. -/
theorem combine_none (r : Option View) : combine r none = r := by
  cases r <;> rfl

theorem viewAt_cons (t : Node) (k : String) (p : List String) :
    t.viewAt (k :: p) = (t.children.find? k).bind fun c => viewAt c p := by
  rw [viewAt, KeyTree.valueAt_cons]
  cases t.children.find? k <;> rfl

/-- The value of a node that is no scalar is kept. -/
theorem value_addChildren (ht : t.value.type.isScalar = false)
    (h : addChildren name t cs = .ok t') : t'.value = t.value := by
  induction cs generalizing t t' name with
  | nil =>
    cases h
    rfl
  | cons k v cs rest ihcs ihrest =>
    by_cases hk : k = "root"
    · subst hk
      obtain ⟨u, hu, h⟩ := addChildren_cons_root h ht
      have hvu : u.value = t.value := ihcs ht hu
      exact (ihrest (hvu ▸ ht) h).trans hvu
    · obtain ⟨c, -, h⟩ := addChildren_cons_of_ne hk h
      have hv : t'.value = (t.setChild k c).value := ihrest ht h
      exact hv

/-- Children of which the other tree has none stay. -/
theorem find?_addChildren_of_none (hroot : "root" ∉ cs.keys) (hk : cs.find? k = none)
    (h : addChildren name t cs = .ok t') : t'.children.find? k = t.children.find? k := by
  induction cs generalizing t with
  | nil =>
    cases h
    rfl
  | cons k' v cs rest _ ih =>
    rw [Children.find?] at hk
    split_ifs at hk with heq
    have hk' : k' ≠ "root" := fun heq' => hroot (heq' ▸ List.mem_cons_self)
    obtain ⟨c, -, h⟩ := addChildren_cons_of_ne hk' h
    rw [ih (fun hmem => hroot (List.mem_cons_of_mem k' hmem)) hk h]
    exact Children.find?_insert_of_ne _ heq c

/-- Children of which the other tree has one are merged with it. -/
theorem find?_addChildren_of_some (hs : cs.Sorted) (hroot : "root" ∉ cs.keys) {d : Node}
    (hk : cs.find? k = some d) (h : addChildren name t cs = .ok t') :
    ∃ c, mergeChild k (t.children.find? k) d = .ok c ∧ t'.children.find? k = some c := by
  induction cs generalizing t with
  | nil => cases hk
  | cons k' v cs rest _ ih =>
    have hk' : k' ≠ "root" := fun heq' => hroot (heq' ▸ List.mem_cons_self)
    have hroot' : "root" ∉ rest.keys := fun hmem => hroot (List.mem_cons_of_mem k' hmem)
    obtain ⟨c, hc, h⟩ := addChildren_cons_of_ne hk' h
    rw [Children.find?] at hk
    split_ifs at hk with heq
    · subst heq
      cases hk
      -- a key occurs once, so the rest leaves this child alone
      have hrest : rest.find? k = none :=
        (Children.find?_eq_none_iff rest k).mpr fun hmem => lt_irrefl k (hs.1 k hmem)
      refine ⟨c, hc, (find?_addChildren_of_none hroot' hrest h).trans ?_⟩
      exact Children.find?_insert_self _ k c
    · obtain ⟨c', hc', hfind⟩ := ih hs.2.2 hroot' hk h
      rw [KeyTree.setChild, Children.find?_insert_of_ne _ heq] at hc'
      exact ⟨c', hc', hfind⟩

/-- What a document is expected to be: its maps are sorted, and no key is "root". -/
structure Plain (d : Node) : Prop where
  sorted : d.Sorted
  names : ∀ p, "root" ∈ p → d.valueAt p = none

theorem Plain.find? {d c : Node} (h : Plain d) (hc : d.children.find? k = some c) : Plain c where
  sorted := Children.Sorted.find? h.sorted hc
  names p hp := by
    have hnone := h.names (k :: p) (List.mem_cons_of_mem k hp)
    rwa [KeyTree.valueAt_cons, hc] at hnone

theorem Plain.keys {d : Node} (h : Plain d) : "root" ∉ d.children.keys := by
  rw [← Children.find?_eq_none_iff]
  have hnone := h.names ["root"] List.mem_cons_self
  rw [KeyTree.valueAt_cons] at hnone
  cases hfind : d.children.find? "root" with
  | none => rfl
  | some c =>
    rw [hfind] at hnone
    cases hnone

/-- Nothing is in the merged tree that was in neither. -/
theorem valueAt_addChildren_none {d : Node} (hd : Plain d)
    (h : addChildren name t d.children = .ok t') {p : List String} (hp : p ≠ [])
    (ht : t.valueAt p = none) (hdp : d.valueAt p = none) : t'.valueAt p = none := by
  induction p generalizing t d t' name with
  | nil => exact absurd rfl hp
  | cons k p ih =>
    rw [KeyTree.valueAt_cons] at ht hdp ⊢
    cases hfind : d.children.find? k with
    | none =>
      rw [find?_addChildren_of_none hd.keys hfind h]
      exact ht
    | some dk =>
      obtain ⟨c', hmerge, hfind'⟩ := find?_addChildren_of_some hd.sorted hd.keys hfind h
      rw [hfind'] at *
      rw [hfind] at hdp
      cases p with
      | nil => cases hdp
      | cons k' p =>
        have hc : ((t.children.find? k).getD ⟨dk.value, .nil⟩).valueAt (k' :: p) = none := by
          cases hfindt : t.children.find? k with
          | none => rfl
          | some c =>
            rw [hfindt] at ht
            exact ht
        rw [mergeChild] at hmerge
        split_ifs at hmerge with hscalar
        · obtain ⟨-, -, -, hchildren⟩ := overwrite_eq_ok hscalar hmerge
          rw [KeyTree.valueAt_cons] at hc
          rw [Option.bind_some, KeyTree.valueAt_cons, hchildren]
          exact hc
        · exact ih (hd.find? hfind) hmerge (List.cons_ne_nil k' p) hc hdp

theorem view_of_isScalar {v : NodeValue} (h : v.type.isScalar = true) :
    (v.type.isScalar, v.reading) = (true, Reading.text v.scalar) := by
  have hseq : v.type ≠ .sequence := by
    intro heq
    rw [heq] at h
    cases h
  rw [h, NodeValue.reading, if_neg hseq]

/-- The value that a node takes when it meets another. -/
theorem viewAt_mergeChild {c : Option Node} {d c' : Node} (h : mergeChild k c d = .ok c') :
    c'.viewAt [] = combine (c.bind fun c => viewAt c []) (d.viewAt []) ∧
      ∀ r w, (c.bind fun c => viewAt c []) = some r → r.1 = true → d.viewAt [] = some w →
        w.1 = true := by
  rw [mergeChild] at h
  split_ifs at h with hscalar
  · obtain ⟨hd, hscalar', htext, -⟩ := overwrite_eq_ok hscalar h
    have hview : c'.viewAt [] = some (d.value.type.isScalar, d.value.reading) := by
      show some (c'.value.type.isScalar, c'.value.reading) = _
      rw [view_of_isScalar hd, view_of_isScalar hscalar', htext]
    refine ⟨hview.trans ?_, fun r w _ _ hw => ?_⟩
    · cases c with
      | none => rfl
      | some c => exact (if_pos hscalar).symm
    · cases hw
      exact hd
  · have hv := value_addChildren (Bool.eq_false_iff.mpr hscalar) h
    have hview : c'.viewAt [] = some ((c.getD ⟨d.value, .nil⟩).value.type.isScalar,
        (c.getD ⟨d.value, .nil⟩).value.reading) := by
      show some (c'.value.type.isScalar, c'.value.reading) = _
      rw [hv]
    rw [hview]
    cases c with
    | none => exact ⟨rfl, fun r w hr => nomatch hr⟩
    | some c =>
      refine ⟨(if_neg hscalar).symm, fun r w hr hr' => ?_⟩
      cases hr
      exact absurd hr' hscalar

/-- Below the root a node that is new has nothing. -/
theorem viewAt_getD (c : Option Node) (v : NodeValue) {q : List String} (hq : q ≠ []) :
    (c.bind fun c => viewAt c q) = viewAt (c.getD ⟨v, .nil⟩) q := by
  cases c with
  | some c => rfl
  | none =>
    cases q with
    | nil => exact absurd rfl hq
    | cons _ _ => rfl

/-- A scalar that meets a node blocks what is below. -/
theorem blocked_of_isScalar {d dk : Node} (hfind : d.children.find? k = some dk)
    (hdk : dk.value.type.isScalar = true)
    (hscalar : ((t.children.find? k).getD ⟨dk.value, .nil⟩).value.type.isScalar = true) :
    Blocked t d [k] := by
  refine ⟨(dk.value.type.isScalar, dk.value.reading),
    (dk.value.type.isScalar, dk.value.reading), ?_, ?_, hdk⟩
  · rw [viewAt_cons, hfind]
    rfl
  · rw [viewAt_cons]
    cases hfindt : t.children.find? k with
    | none => rfl
    | some c =>
      rw [hfindt] at hscalar
      exact if_pos hscalar

/-- Where no scalar stands above a path, the values at the path are combined, and a scalar has
met a scalar there. -/
theorem viewAt_addChildren {d : Node} (hd : Plain d)
    (h : addChildren name t d.children = .ok t') {p : List String} (hp : p ≠ [])
    (hopen : ∀ q, q ≠ [] → q <+: p → q ≠ p → ¬ Blocked t d q) :
    t'.viewAt p = combine (t.viewAt p) (d.viewAt p) ∧
      ∀ r w, t.viewAt p = some r → r.1 = true → d.viewAt p = some w → w.1 = true := by
  induction p generalizing t d t' name with
  | nil => exact absurd rfl hp
  | cons k p ih =>
    rw [viewAt_cons, viewAt_cons t, viewAt_cons d]
    cases hfind : d.children.find? k with
    | none =>
      rw [find?_addChildren_of_none hd.keys hfind h, Option.bind_none, combine_none]
      exact ⟨rfl, fun r w _ _ hw => nomatch hw⟩
    | some dk =>
      -- one key down: what `operator+=` does with the child of this name
      obtain ⟨c', hmerge, hfind'⟩ := find?_addChildren_of_some hd.sorted hd.keys hfind h
      rw [hfind', Option.bind_some, Option.bind_some]
      cases p with
      | nil => exact viewAt_mergeChild hmerge
      | cons k' p =>
        have hne : k' :: p ≠ [] := List.cons_ne_nil k' p
        rw [mergeChild] at hmerge
        split_ifs at hmerge with hscalar
        · -- a scalar here is above the path
          obtain ⟨hdk, -, -, -⟩ := overwrite_eq_ok hscalar hmerge
          refine absurd (blocked_of_isScalar hfind hdk hscalar)
            (hopen [k] (List.cons_ne_nil k []) ?_ ?_)
          · exact List.cons_prefix_cons.mpr ⟨rfl, List.nil_prefix⟩
          · exact fun heq => hne (List.cons.inj heq).2.symm
        · rw [viewAt_getD _ dk.value hne]
          refine ih (hd.find? hfind) hmerge hne fun q hq hpre hqne hblocked => ?_
          refine hopen (k :: q) (List.cons_ne_nil k q) (List.cons_prefix_cons.mpr ⟨rfl, hpre⟩)
            (fun heq => hqne (List.cons.inj heq).2) ?_
          obtain ⟨w, w', hw, hw', hscalar'⟩ := hblocked
          refine ⟨w, w', ?_, ?_, hscalar'⟩
          · rw [viewAt_cons, hfind]
            exact hw
          · rw [viewAt_cons, viewAt_getD _ dk.value hq]
            exact hw'

/-! ## A sequence of documents -/

/-- The value that the first document with the path has there. -/
def firstAt (docs : List Node) (p : List String) : Option NodeValue :=
  docs.findSome? fun d => d.valueAt p

/-- The value that the last document with the path has there. -/
def lastAt (docs : List Node) (p : List String) : Option NodeValue :=
  docs.reverse.findSome? fun d => d.valueAt p

/-- One more document is merged into what the others give. -/
theorem mergeAll_append (docs : List Node) (d : Node) :
    mergeAll (docs ++ [d]) = mergeAll docs >>= fun t => addDocument t d := by
  rw [mergeAll, mergeAll, List.foldlM_append]
  cases docs.foldlM addDocument root with
  | error e => rfl
  | ok t =>
    show (addDocument t d >>= fun u => .ok u) = addDocument t d
    cases addDocument t d <;> rfl

/-- A document is added to the children of the root. -/
theorem addDocument_of_root {d : Node} (ht : t.value = root.value) :
    addDocument t d = addChildren "root" t d.children := by
  rw [addDocument, ht]
  rfl

/-- The merge of documents is a merged tree, with the value of the root. -/
theorem merged_mergeAll {docs : List Node} (h : mergeAll docs = .ok t) :
    Merged t ∧ t.value = root.value := by
  induction docs using List.reverseRecOn generalizing t with
  | nil =>
    cases h
    exact ⟨merged_childless root.value, rfl⟩
  | append_singleton docs d ih =>
    rw [mergeAll_append] at h
    obtain ⟨u, hu, h⟩ := exists_of_bind_eq_ok h
    obtain ⟨hm, hv⟩ := ih hu
    rw [addDocument_of_root hv] at h
    have hscalar : u.value.type.isScalar = false := by
      rw [hv]
      rfl
    obtain ⟨hm', hv'⟩ := hm.addChildren hscalar h
    exact ⟨hm', hv'.trans hv⟩

/-- Merging keeps the keys in their order, and makes none with a '/'. -/
theorem tidy_addChildren (ht : t.value.type.isScalar = false) (htidy : t.Sorted ∧ t.Slashless)
    (hsorted : cs.Sorted) (hslash : Slashless ⟨v, cs⟩) (h : addChildren name t cs = .ok t') :
    t'.Sorted ∧ t'.Slashless := by
  induction cs generalizing t t' name v with
  | nil =>
    cases h
    exact htidy
  | cons k w ds rest ihds ihrest =>
    obtain ⟨hkey, hds⟩ := KeyTree.AllKeys.first hslash
    have hrest : Slashless ⟨v, rest⟩ := KeyTree.AllKeys.others hsorted hslash
    by_cases hk : k = "root"
    · subst hk
      -- the children of `root` are added to the tree itself
      obtain ⟨u, hu, h⟩ := addChildren_cons_root h ht
      have hvu : u.value = t.value := value_addChildren ht hu
      exact ihrest (hvu ▸ ht) (ihds ht htidy hsorted.2.1 hds hu) hsorted.2.2 hrest h
    · obtain ⟨c', hc', h⟩ := addChildren_cons_of_ne hk h
      have hc : ((t.children.find? k).getD ⟨w, .nil⟩).Sorted ∧
          Slashless ((t.children.find? k).getD ⟨w, .nil⟩) := by
        cases hfind : t.children.find? k with
        | none => exact ⟨trivial, KeyTree.AllKeys.childless _ w⟩
        | some c =>
          exact ⟨Children.Sorted.find? htidy.1 hfind, (KeyTree.AllKeys.child htidy.2 hfind).2⟩
      have htidy' : c'.Sorted ∧ c'.Slashless := by
        rw [mergeChild] at hc'
        split_ifs at hc' with hscalar
        · -- only the text of the child has changed
          obtain ⟨-, -, -, hchildren⟩ := overwrite_eq_ok hscalar hc'
          refine ⟨?_, KeyTree.AllKeys.of_children hc.2 hchildren⟩
          rw [KeyTree.Sorted, hchildren]
          exact hc.1
        · exact ihds (Bool.eq_false_iff.mpr hscalar) hc hsorted.2.1 hds hc'
      have hset : (t.setChild k c').Sorted ∧ Slashless (t.setChild k c') :=
        ⟨KeyTree.Sorted.setChild htidy.1 k htidy'.1,
          KeyTree.AllKeys.setChild htidy.2 hkey htidy'.2⟩
      have hscalar : (t.setChild k c').value.type.isScalar = false := ht
      exact ihrest hscalar hset hsorted.2.2 hrest h

/-- Merging keeps the keys in order, and brings no '/' into them. -/
theorem tidy_mergeAll {docs : List Node} (hdocs : ∀ d ∈ docs, d.Sorted ∧ d.Slashless)
    (h : mergeAll docs = .ok t) : t.Sorted ∧ t.Slashless := by
  induction docs using List.reverseRecOn generalizing t with
  | nil =>
    cases h
    exact ⟨trivial, KeyTree.AllKeys.childless _ _⟩
  | append_singleton docs d ih =>
    rw [mergeAll_append] at h
    obtain ⟨u, hu, h⟩ := exists_of_bind_eq_ok h
    obtain ⟨hdocs, hd⟩ := List.forall_mem_append.mp hdocs
    obtain ⟨hsorted, hslash⟩ := hd d List.mem_cons_self
    have hvalue := (merged_mergeAll hu).2
    have hscalar : u.value.type.isScalar = false := by
      rw [hvalue]
      rfl
    rw [addDocument_of_root hvalue] at h
    exact tidy_addChildren (v := d.value) hscalar (ih hdocs hu) hsorted hslash h

/-- What is in none of the documents is not in the tree. -/
theorem valueAt_mergeAll_none {docs : List Node} (hdocs : ∀ d ∈ docs, Plain d)
    (h : mergeAll docs = .ok t) {p : List String} (hp : p ≠ [])
    (hnone : ∀ d ∈ docs, d.valueAt p = none) : t.valueAt p = none := by
  induction docs using List.reverseRecOn generalizing t with
  | nil =>
    cases h
    cases p with
    | nil => exact absurd rfl hp
    | cons _ _ => rfl
  | append_singleton docs d ih =>
    rw [mergeAll_append] at h
    obtain ⟨u, hu, h⟩ := exists_of_bind_eq_ok h
    rw [addDocument_of_root (merged_mergeAll hu).2] at h
    have hmem : d ∈ docs ++ [d] := List.mem_append_right docs List.mem_cons_self
    refine valueAt_addChildren_none (hdocs d hmem) h hp ?_ (hnone d hmem)
    exact ih (fun d' hd' => hdocs d' (List.mem_append_left _ hd')) hu
      fun d' hd' => hnone d' (List.mem_append_left _ hd')

/-- What is at a path after all the documents: the first value, or the last one if the first
is a scalar. -/
structure Settled (docs : List Node) (t : Node) (p : List String) : Prop where
  absent : firstAt docs p = none → t.viewAt p = none
  fixed : ∀ f, firstAt docs p = some f → f.type.isScalar = false →
    t.viewAt p = some (f.type.isScalar, f.reading)
  scalar : ∀ f, firstAt docs p = some f → f.type.isScalar = true →
    ∃ l, lastAt docs p = some l ∧ l.type.isScalar = true ∧ t.viewAt p = some (true, l.reading)

section

variable {docs : List Node} {u d : Node} {p : List String}

theorem firstAt_snoc (docs : List Node) (d : Node) (p : List String) :
    firstAt (docs ++ [d]) p = (firstAt docs p).or (d.valueAt p) := by
  rw [firstAt, List.findSome?_append]
  cases hp : d.valueAt p <;> simp [firstAt, hp]

theorem lastAt_snoc (docs : List Node) (d : Node) (p : List String) :
    lastAt (docs ++ [d]) p = (d.valueAt p).or (lastAt docs p) := by
  rw [lastAt, List.reverse_append, List.findSome?_append]
  cases hp : d.valueAt p <;> simp [lastAt, hp]

/-- What is settled, and not as a scalar, does not block the next document. -/
theorem Settled.not_blocked (hu : Settled docs u p)
    (hopen : ∀ f, firstAt (docs ++ [d]) p = some f → f.type.isScalar = false) :
    ¬ Blocked u d p := by
  rintro ⟨w, w', hw, hw', hscalar⟩
  cases hf : firstAt docs p with
  | some f =>
    have hf' : f.type.isScalar = false := hopen f (by rw [firstAt_snoc, hf]; rfl)
    rw [hu.fixed f hf hf', hf'] at hw'
    cases hw'
    cases hscalar
  | none =>
    rw [hu.absent hf] at hw'
    cases hw'
    rw [viewAt, Option.map_eq_some_iff] at hw
    obtain ⟨f, hf', rfl⟩ := hw
    have hscalar' : f.type.isScalar = false := hopen f (by rw [firstAt_snoc, hf, hf']; rfl)
    exact absurd (hscalar'.symm.trans hscalar) Bool.false_ne_true

/-- One more document, combined with what is settled. -/
theorem Settled.snoc (hu : Settled docs u p)
    (hview : t.viewAt p = combine (u.viewAt p) (d.viewAt p))
    (hmeet : ∀ r w, u.viewAt p = some r → r.1 = true → d.viewAt p = some w → w.1 = true) :
    Settled (docs ++ [d]) t p := by
  refine ⟨fun hnone => ?_, fun f hf hscalar => ?_, fun f hf hscalar => ?_⟩
  · rw [firstAt_snoc, Option.or_eq_none_iff] at hnone
    rw [hview, hu.absent hnone.1, viewAt, hnone.2]
    rfl
  · rw [firstAt_snoc] at hf
    cases hf' : firstAt docs p with
    | some f' =>
      rw [hf'] at hf
      cases hf
      rw [hview, hu.fixed f hf' hscalar, hscalar]
      cases d.viewAt p <;> rfl
    | none =>
      rw [hf'] at hf
      rw [hview, hu.absent hf', viewAt, show d.valueAt p = some f from hf]
      rfl
  · rw [firstAt_snoc] at hf
    rw [lastAt_snoc]
    cases hf' : firstAt docs p with
    | some f' =>
      rw [hf'] at hf
      cases hf
      -- the last of the earlier documents counts, unless the new one has the path too
      obtain ⟨l, hl, hl', hu'⟩ := hu.scalar f hf' hscalar
      cases hdp : d.valueAt p with
      | none =>
        refine ⟨l, hl, hl', ?_⟩
        rw [hview, hu', viewAt, hdp]
        rfl
      | some w =>
        have hdview : d.viewAt p = some (w.type.isScalar, w.reading) := by
          rw [viewAt, hdp]
          rfl
        have hw : w.type.isScalar = true := hmeet _ _ hu' rfl hdview
        refine ⟨w, rfl, hw, ?_⟩
        rw [hview, hu', hdview, hw]
        rfl
    | none =>
      rw [hf'] at hf
      have hdp : d.valueAt p = some f := hf
      refine ⟨f, by rw [hdp]; rfl, hscalar, ?_⟩
      rw [hview, hu.absent hf', viewAt, hdp, ← hscalar]
      rfl

end

/-- A path that no scalar above it hides is settled by the first and the last document that have it.
-/
theorem settled {docs : List Node} (hdocs : ∀ d ∈ docs, Plain d) (h : mergeAll docs = .ok t)
    {p : List String} (hp : p ≠ [])
    (hopen : ∀ q, q ≠ [] → q <+: p → q ≠ p → ∀ f, firstAt docs q = some f →
      f.type.isScalar = false) : Settled docs t p := by
  induction docs using List.reverseRecOn generalizing t p with
  | nil =>
    cases h
    refine ⟨fun _ => ?_, nofun, nofun⟩
    cases p with
    | nil => exact absurd rfl hp
    | cons _ _ => rfl
  | append_singleton docs d ih =>
    rw [mergeAll_append] at h
    obtain ⟨u, hu, h⟩ := exists_of_bind_eq_ok h
    rw [addDocument_of_root (merged_mergeAll hu).2] at h
    have hd : Plain d := hdocs d (List.mem_append_right docs List.mem_cons_self)
    have hbefore : ∀ q, q ≠ [] → (∀ q', q' ≠ [] → q' <+: q → q' ≠ q → q' <+: p ∧ q' ≠ p) →
        Settled docs u q := by
      intro q hq hsub
      refine ih (fun d' hd' => hdocs d' (List.mem_append_left _ hd')) hu hq ?_
      intro q' hq' hpre hne f hf
      refine hopen q' hq' (hsub q' hq' hpre hne).1 (hsub q' hq' hpre hne).2 f ?_
      rw [firstAt_snoc, hf]
      rfl
    -- above the path everything is settled, and not as a scalar
    have hfree : ∀ q, q ≠ [] → q <+: p → q ≠ p → ¬ Blocked u d q := by
      intro q hq hpre hne
      have hsettled : Settled docs u q := hbefore q hq fun q' _ hpre' hne' =>
        ⟨hpre'.trans hpre, fun heq => hne' (hpre'.eq_of_length_le (heq ▸ hpre.length_le))⟩
      exact hsettled.not_blocked (hopen q hq hpre hne)
    obtain ⟨hview, hmeet⟩ := viewAt_addChildren hd h hp hfree
    have hsettled : Settled docs u p := hbefore p hp fun q' _ hpre hne => ⟨hpre, hne⟩
    exact hsettled.snoc hview hmeet

/-! ## Later documents override earlier ones -/

/-- Something is below the path. -/
def Inner (d : Node) (p : List String) : Prop := ∃ k, (d.valueAt (p ++ [k])).isSome = true

/-- What the last document that has a leaf at the path has there. -/
def lastDef (docs : List Node) (p : List String) : Option Reading :=
  docs.reverse.findSome? fun d => (d.leafAt p).map NodeValue.reading

/-- One document has a leaf where another one has a map. -/
def Clash (docs : List Node) (p : List String) : Prop :=
  ∃ d ∈ docs, ∃ d' ∈ docs, (d.leafAt p).isSome = true ∧ d'.Inner p

/-- What is expected of a load that has not thrown. -/
structure LaterOverrides (docs : List Node) (root : Node) : Prop where
  last : ∀ p, p ≠ [] → ∀ r, lastDef docs p = some r →
    (root.leafAt p).map NodeValue.reading = some r
  clash : ∀ p, p ≠ [] → ¬ Clash docs p

/-- When it is so: no key is "root", no path is a leaf here and a map there, a map is not a
scalar where it comes up first, and what comes up first without being a scalar has the last
value already. -/
structure Overridable (docs : List Node) : Prop where
  names : ∀ d ∈ docs, ∀ p, "root" ∈ p → d.valueAt p = none
  clash : ∀ p, p ≠ [] → ¬ Clash docs p
  maps : ∀ p, p ≠ [] → ∀ v, firstAt docs p = some v → v.type.isScalar = true →
    ∀ d ∈ docs, ¬ d.Inner p
  fixed : ∀ p, p ≠ [] → ∀ v, firstAt docs p = some v → v.type.isScalar = false →
    ∀ r, lastDef docs p = some r → r = v.reading

variable {docs : List Node}

/-- The last definition of a path is a leaf of some document. -/
theorem exists_of_lastDef {p : List String} {r : Reading} (h : lastDef docs p = some r) :
    ∃ d ∈ docs, (d.leafAt p).isSome = true := by
  obtain ⟨d, hd, hr⟩ := List.exists_of_findSome?_eq_some h
  rw [Option.map_eq_some_iff] at hr
  obtain ⟨v, hv, -⟩ := hr
  exact ⟨d, List.mem_reverse.mp hd, by rw [hv]; rfl⟩

/-- A leaf of a document has a last definition. -/
theorem lastDef_isSome {p : List String} {d : Node} (hd : d ∈ docs)
    (h : (d.leafAt p).isSome = true) : ∃ r, lastDef docs p = some r := by
  rw [← Option.isSome_iff_exists, lastDef, List.findSome?_isSome_iff]
  exact ⟨d, List.mem_reverse.mpr hd, by rw [Option.isSome_map]; exact h⟩

theorem valueAt_of_leafAt {d : Node} {p : List String} (h : (d.leafAt p).isSome = true) :
    (d.valueAt p).isSome = true := by
  obtain ⟨v, hv⟩ := Option.isSome_iff_exists.mp h
  rw [((d.leafAt_eq_some_iff p v).mp hv).1]
  rfl

/-- The nodes above a node are there. -/
theorem isSome_valueAt_of_prefix {d : Node} {p q : List String} (hpre : p <+: q)
    (h : (d.valueAt q).isSome = true) : (d.valueAt p).isSome = true := by
  obtain ⟨v, hv⟩ := Option.isSome_iff_exists.mp h
  obtain ⟨w, hw⟩ := KeyTree.valueAt_of_prefix hpre hv
  rw [hw]
  rfl

/-- A path that goes on has something below each of its beginnings. -/
theorem inner_above {d : Node} {p q : List String} (hpre : q <+: p) (hne : q ≠ p)
    (h : (d.valueAt p).isSome = true) : d.Inner q := by
  obtain ⟨r, rfl⟩ := hpre
  cases r with
  | nil => exact absurd (List.append_nil q).symm hne
  | cons k r =>
    refine ⟨k, isSome_valueAt_of_prefix ?_ h⟩
    exact ⟨r, by rw [List.append_assoc]; rfl⟩

/-- Where nothing is below in any document, the last one with the path defines it. -/
theorem lastDef_eq {p : List String} (h : ∀ d ∈ docs, ¬ d.Inner p) :
    lastDef docs p = (lastAt docs p).map NodeValue.reading := by
  have hleaf : ∀ d ∈ docs.reverse, d.leafAt p = d.valueAt p := by
    intro d hd
    cases hv : d.valueAt p with
    | none =>
      rw [KeyTree.leafAt, (d.valueAt_eq_none_iff p).mp hv]
      rfl
    | some v =>
      refine (d.leafAt_eq_some_iff p v).mpr ⟨hv, fun k => ?_⟩
      by_contra hk
      exact h d (List.mem_reverse.mp hd) ⟨k, Option.isSome_iff_ne_none.mpr hk⟩
  rw [lastDef, lastAt]
  generalize docs.reverse = l at hleaf
  induction l with
  | nil => rfl
  | cons d l ih =>
    rw [List.findSome?_cons, List.findSome?_cons, hleaf d List.mem_cons_self,
      ih fun d' hd' => hleaf d' (List.mem_cons_of_mem d hd')]
    cases d.valueAt p <;> rfl

/-- Documents in which the later ones override are overridable. -/
theorem LaterOverrides.overridable (hsorted : ∀ d ∈ docs, d.Sorted) {root : Node}
    (h : mergeAll docs = .ok root) (hlast : LaterOverrides docs root) : Overridable docs := by
  have hmerged : Merged root := (merged_mergeAll h).1
  -- whatever is in a document has a leaf below that the root has too
  have hroot : ∀ d ∈ docs, ∀ p, p ≠ [] → (d.valueAt p).isSome = true →
      ∃ q, (root.valueAt (p ++ q)).isSome = true := by
    intro d hd p hp hsome
    obtain ⟨v, hv⟩ := Option.isSome_iff_exists.mp hsome
    obtain ⟨q, w, hq⟩ := KeyTree.exists_leafAt_append hv
    obtain ⟨r, hr⟩ := lastDef_isSome hd (Option.isSome_of_eq_some hq)
    have hleaf := hlast.last (p ++ q) (fun hnil => hp (List.append_eq_nil_iff.mp hnil).1) r hr
    refine ⟨q, valueAt_of_leafAt ?_⟩
    rw [← Option.isSome_map (f := NodeValue.reading), hleaf]
    rfl
  have hnames : ∀ d ∈ docs, ∀ p, "root" ∈ p → d.valueAt p = none := by
    intro d hd p hp
    by_contra hne
    have hp' : p ≠ [] := List.ne_nil_of_mem hp
    obtain ⟨q, hq⟩ := hroot d hd p hp' (Option.isSome_iff_ne_none.mpr hne)
    rw [hmerged.names (p ++ q) (List.mem_append_left q hp)] at hq
    cases hq
  have hplain : ∀ d ∈ docs, Plain d := fun d hd => ⟨hsorted d hd, hnames d hd⟩
  have hmaps : ∀ p, p ≠ [] → ∀ v, firstAt docs p = some v → v.type.isScalar = true →
      ∀ d ∈ docs, ¬ d.Inner p := by
    intro p
    induction hn : p.length using Nat.strongRecOn generalizing p with
    | ind n ih =>
      rintro hp v hv hscalar d hd ⟨k, hk⟩
      have hsettled : Settled docs root p := by
        refine settled hplain h hp fun q hq hpre hne f hf => ?_
        by_contra hf'
        have hlt : q.length < n := by
          rw [← hn]
          exact lt_of_le_of_ne hpre.length_le fun heq => hne (hpre.eq_of_length heq)
        have hsome : (d.valueAt p).isSome = true :=
          isSome_valueAt_of_prefix (List.prefix_append p [k]) hk
        exact ih q.length hlt q rfl hq f hf (Bool.not_eq_false _ ▸ hf') d hd
          (inner_above hpre hne hsome)
      obtain ⟨l, -, -, hview⟩ := hsettled.scalar v hv hscalar
      rw [viewAt, KeyTree.valueAt, Option.map_map, Option.map_eq_some_iff] at hview
      obtain ⟨n', hn', hview⟩ := hview
      -- the root has a scalar here, and something below it
      obtain ⟨q, hq⟩ := hroot d hd (p ++ [k]) (List.append_ne_nil_of_left_ne_nil hp [k]) hk
      rw [List.append_assoc, KeyTree.valueAt_append, hn', Option.bind_some] at hq
      refine hmerged.scalars p n' hn' (congrArg Prod.fst hview) ?_
      exact (n'.hasChildren_iff).mpr ⟨k, isSome_valueAt_of_prefix (List.prefix_append [k] q) hq⟩
  refine ⟨hnames, hlast.clash, hmaps, fun p hp v hv hscalar r hr => ?_⟩
  obtain ⟨d, hd, hleaf⟩ := exists_of_lastDef hr
  have hsettled : Settled docs root p := by
    refine settled hplain h hp fun q hq hpre hne f hf => ?_
    by_contra hf'
    exact hmaps q hq f hf (Bool.not_eq_false _ ▸ hf') d hd
      (inner_above hpre hne (valueAt_of_leafAt hleaf))
  have hread := hlast.last p hp r hr
  rw [Option.map_eq_some_iff] at hread
  obtain ⟨w, hw, rfl⟩ := hread
  have hview := hsettled.fixed v hv hscalar
  rw [viewAt, ((root.leafAt_eq_some_iff p w).mp hw).1] at hview
  exact congrArg Prod.snd (Option.some.inj hview)

/-- Of overridable documents the later ones override. -/
theorem Overridable.laterOverrides (hsorted : ∀ d ∈ docs, d.Sorted) {root : Node}
    (h : mergeAll docs = .ok root) (hdocs : Overridable docs) : LaterOverrides docs root := by
  have hplain : ∀ d ∈ docs, Plain d := fun d hd => ⟨hsorted d hd, hdocs.names d hd⟩
  refine ⟨fun p hp r hr => ?_, hdocs.clash⟩
  obtain ⟨d, hd, hleaf⟩ := exists_of_lastDef hr
  have hinner : ∀ d' ∈ docs, ¬ d'.Inner p :=
    fun d' hd' hin => hdocs.clash p hp ⟨d, hd, d', hd', hleaf, hin⟩
  have hsettled : Settled docs root p := by
    refine settled hplain h hp fun q hq hpre hne f hf => ?_
    by_contra hf'
    exact hdocs.maps q hq f hf (Bool.not_eq_false _ ▸ hf') d hd
      (inner_above hpre hne (valueAt_of_leafAt hleaf))
  -- what the root reads at the path
  have hview : ∃ b, root.viewAt p = some (b, r) := by
    have hsome : (firstAt docs p).isSome = true := by
      rw [firstAt, List.findSome?_isSome_iff]
      exact ⟨d, hd, valueAt_of_leafAt hleaf⟩
    obtain ⟨f, hf⟩ := Option.isSome_iff_exists.mp hsome
    by_cases hscalar : f.type.isScalar = true
    · obtain ⟨l, hl, -, hview⟩ := hsettled.scalar f hf hscalar
      rw [lastDef_eq hinner, hl] at hr
      cases hr
      exact ⟨_, hview⟩
    · have hscalar' : f.type.isScalar = false := Bool.eq_false_iff.mpr hscalar
      rw [hdocs.fixed p hp f hf hscalar' r hr]
      exact ⟨_, hsettled.fixed f hf hscalar'⟩
  obtain ⟨b, hview⟩ := hview
  rw [viewAt, Option.map_eq_some_iff] at hview
  obtain ⟨w, hw, hview⟩ := hview
  have hleaf' : root.leafAt p = some w := by
    refine (root.leafAt_eq_some_iff p w).mpr ⟨hw, fun k => ?_⟩
    refine valueAt_mergeAll_none hplain h (List.append_ne_nil_of_left_ne_nil hp [k]) ?_
    intro d' hd'
    by_contra hk
    exact hinner d' hd' ⟨k, Option.isSome_iff_ne_none.mpr hk⟩
  rw [hleaf']
  exact congrArg (fun v : View => some v.2) hview

/-- A document with one entry. -/
def entryDoc (key : String) (v : NodeValue) : Node := ⟨⟨.map, "", []⟩, .cons key v .nil .nil⟩

end Node
end GazeboRcll
