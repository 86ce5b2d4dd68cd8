import GazeboRcll.Mps.Storage
import Mathlib.Data.List.Flatten
import Mathlib.Data.List.Pairwise

/-!
# How a storage station reads its configuration

`init_storage` reads a list of entries for every configured slot: the base, the rings and the
cap. An entry of no known colour is reported and passed over, a list of one entry gives base
and cap at once, and a slot that is configured again gets the new rings on top of the old ones;
the slot is marked as filled in each of these cases. `understood_iff` tells for which
configurations every marked slot is what its entries say.
-/

namespace GazeboRcll

open StorageStation

/-! ## Entries -/

/-- The base that an entry names. -/
def knownBase (entry : String) : Option Color :=
  if entry = "BLACK" then some .BLACK
  else if entry = "SILVER" then some .SILVER
  else if entry = "RED" then some .RED
  else none

/-- The cap that an entry names; the empty one stands for no cap. -/
def knownCap (entry : String) : Option Color :=
  if entry = "BLACK" then some .BLACK
  else if entry = "GRAY" then some .GREY
  else if entry = "" then some .NONE
  else none

theorem readBaseClr_eq (entry : String) (old : Color) :
    readBaseClr entry old = (knownBase entry).getD old := by
  unfold readBaseClr knownBase
  split_ifs <;> rfl

theorem readCapClr_eq (entry : String) (old : Color) :
    readCapClr entry old = (knownCap entry).getD old := by
  unfold readCapClr knownCap
  split_ifs <;> rfl

/-- Different entries name different bases. -/
theorem knownBase_inj {a b : String} {clr : Color} (ha : knownBase a = some clr)
    (hb : knownBase b = some clr) : a = b := by
  unfold knownBase at ha hb
  split_ifs at ha hb <;> grind

theorem knownCap_inj {a b : String} {clr : Color} (ha : knownCap a = some clr)
    (hb : knownCap b = some clr) : a = b := by
  unfold knownCap at ha hb
  split_ifs at ha hb <;> grind

/-- A base, any number of rings, and a cap of its own, all of them known. -/
def WellFormed (entries : List String) : Prop :=
  ∃ base rings cap, entries = base :: (rings ++ [cap]) ∧ (knownBase base).isSome = true ∧
    (∀ ring ∈ rings, (readRingColor ring).isSome = true) ∧ (knownCap cap).isSome = true

/-- The slot is described by the entries, nothing added and nothing left out. -/
def Decodes (entries : List String) (slot : Storage) : Prop :=
  ∃ base rings cap, entries = base :: (rings ++ [cap]) ∧ knownBase base = some slot.baseClr ∧
    rings.map readRingColor = slot.ringColors.map some ∧ knownCap cap = some slot.capClr

theorem Decodes.wellFormed {entries : List String} {slot : Storage} (h : Decodes entries slot) :
    WellFormed entries := by
  obtain ⟨base, rings, cap, rfl, hbase, hrings, hcap⟩ := h
  refine ⟨base, rings, cap, rfl, by rw [hbase]; rfl, fun ring hring => ?_, by rw [hcap]; rfl⟩
  have hmem : readRingColor ring ∈ slot.ringColors.map some := by
    rw [← hrings]
    exact List.mem_map_of_mem hring
  obtain ⟨clr, -, hclr⟩ := List.mem_map.mp hmem
  rw [← hclr]
  rfl

/-- The rings that a list of entries adds. -/
def ringsOf (entries : List String) : List Color := entries.tail.dropLast.filterMap readRingColor

theorem ringsOf_append (base : String) (rings : List String) (cap : String) :
    ringsOf (base :: (rings ++ [cap])) = rings.filterMap readRingColor := by
  rw [ringsOf, List.tail_cons, List.dropLast_concat]

theorem Decodes.ringColors_eq {entries : List String} {slot : Storage} (h : Decodes entries slot) :
    slot.ringColors = ringsOf entries := by
  obtain ⟨base, rings, cap, rfl, -, hrings, -⟩ := h
  have hfilter := congrArg (List.filterMap id) hrings
  rw [List.filterMap_map, List.filterMap_map] at hfilter
  rw [ringsOf_append]
  simpa using hfilter.symm

/-- All rings are known, so their number is that of the entries between base and cap. -/
theorem Decodes.length_eq {entries : List String} {slot : Storage} (h : Decodes entries slot) :
    entries.length = slot.ringColors.length + 2 := by
  obtain ⟨base, rings, cap, rfl, -, hrings, -⟩ := h
  have hlength := congrArg List.length hrings
  rw [List.length_map, List.length_map] at hlength
  simp [hlength]

/-- A slot without rings is described by well-formed entries. -/
theorem decodes_describe {entries : List String} (h : WellFormed entries) {x y z : ℤ}
    {slot slot' : Storage} (hrings : slot.ringColors = [])
    (hs : describe x y z entries slot = some slot') : Decodes entries slot' := by
  obtain ⟨base, rings, cap, rfl, hbase, hknown, hcap⟩ := h
  obtain ⟨baseClr, hbase⟩ := Option.isSome_iff_exists.mp hbase
  obtain ⟨capClr, hcap⟩ := Option.isSome_iff_exists.mp hcap
  refine ⟨base, rings, cap, rfl, ?_⟩
  simp only [describe, Option.some.injEq] at hs
  rw [← hs]
  dsimp only
  rw [List.getLast?_concat, List.dropLast_concat, hrings, List.nil_append, readBaseClr_eq, hbase,
    Option.getD_some, Option.getD_some, readCapClr_eq, hcap, Option.getD_some]
  refine ⟨rfl, ?_, rfl⟩
  clear hs hrings
  induction rings with
  | nil => rfl
  | cons ring rings ih =>
    obtain ⟨clr, hclr⟩ := Option.isSome_iff_exists.mp (hknown ring List.mem_cons_self)
    rw [List.map_cons, ih fun r hr => hknown r (List.mem_cons_of_mem _ hr),
      List.filterMap_cons_some hclr, hclr]
    rfl

/-- Two lists that describe one slot without rings are the same. -/
theorem Decodes.unique {a b : List String} {slot : Storage} (ha : Decodes a slot)
    (hb : Decodes b slot) (hrings : slot.ringColors = []) : a = b := by
  obtain ⟨base, rings, cap, rfl, hbase, hr, hcap⟩ := ha
  obtain ⟨base', rings', cap', rfl, hbase', hr', hcap'⟩ := hb
  rw [hrings, List.map_nil, List.map_eq_nil_iff] at hr hr'
  rw [knownBase_inj hbase hbase', knownCap_inj hcap hcap', hr, hr']

/-! ## The whole configuration -/

/-- The place in the array that a configured id names. -/
def placeOf (slotpos : String) : Option (Fin STORAGE_SIZE) := do
  let x ← digitAt slotpos 0
  let y ← digitAt slotpos 1
  let z ← digitAt slotpos 2
  storageAt (getStorageIndex x y z)

variable {Pose : Type} {config : String → List String} {slotIds : List String}
  {s s' : StorageStation Pose} {slotpos : String} {i : Fin STORAGE_SIZE}

/-- Every marked slot is a configured one, and is what its entries say. -/
def Understood (config : String → List String) (slotIds : List String)
    (s : StorageStation Pose) : Prop :=
  ∀ i, (s.storage i).hasPuck = true → (∃ slotpos ∈ slotIds, placeOf slotpos = some i) ∧
    ∀ slotpos ∈ slotIds, placeOf slotpos = some i → Decodes (config slotpos) (s.storage i)

/-- Two ids of one place have the same entries, without a ring. -/
def Compatible (config : String → List String) (a b : String) : Prop :=
  placeOf a = placeOf b → config a = config b ∧ (config a).length = 2

/-- One round describes one slot. -/
theorem initSlot_place (h : s.initSlot config slotpos = some s') :
    ∃ i x y z slot, placeOf slotpos = some i ∧
      describe x y z (config slotpos) (s.storage i) = some slot ∧
      s' = { s with storage := Function.update s.storage i slot } := by
  unfold initSlot at h
  simp only [Option.bind_eq_bind, Option.bind_eq_some_iff] at h
  obtain ⟨x, hx, y, hy, z, hz, i, hi, slot, hslot, h⟩ := h
  refine ⟨i, x, y, z, slot, ?_, hslot, (Option.some.inj h).symm⟩
  simp only [placeOf, hx, hy, hz, Option.bind_eq_bind, Option.bind_some, hi]

theorem initSlot_isSome (hplace : (placeOf slotpos).isSome = true)
    (hentries : WellFormed (config slotpos)) :
    (s.initSlot config slotpos).isSome = true := by
  obtain ⟨i, hi⟩ := Option.isSome_iff_exists.mp hplace
  obtain ⟨base, rings, cap, heq, -⟩ := hentries
  simp only [placeOf, Option.bind_eq_bind, Option.bind_eq_some_iff] at hi
  obtain ⟨x, hx, y, hy, z, hz, hi⟩ := hi
  simp only [initSlot, hx, hy, hz, hi, heq, Option.bind_eq_bind, Option.bind_some, describe]
  rfl

/-- What `describe` sets whatever the entries are. -/
theorem describe_spec {x y z : ℤ} {entries : List String} {slot slot' : Storage}
    (h : describe x y z entries slot = some slot') :
    slot'.hasPuck = true ∧ slot'.ringColors = slot.ringColors ++ ringsOf entries := by
  cases entries with
  | nil => cases h
  | cons base rest =>
    cases h
    exact ⟨rfl, rfl⟩

/-- The rings of all lists for a place, in their order. -/
def ringsAt (config : String → List String) (slotIds : List String) (i : Fin STORAGE_SIZE) :
    List Color :=
  (slotIds.filter fun slotpos => placeOf slotpos = some i).flatMap fun slotpos =>
    ringsOf (config slotpos)

/-- Rings add up, and what is configured is marked. -/
theorem initStorage_spec (h : s.initStorage config slotIds = some s') (i : Fin STORAGE_SIZE) :
    (s'.storage i).ringColors = (s.storage i).ringColors ++ ringsAt config slotIds i ∧
      ((∃ slotpos ∈ slotIds, placeOf slotpos = some i) → (s'.storage i).hasPuck = true) ∧
      ((s.storage i).hasPuck = true → (s'.storage i).hasPuck = true) := by
  induction slotIds generalizing s with
  | nil =>
    cases h
    exact ⟨(List.append_nil _).symm, by simp, id⟩
  | cons slotpos slotIds ih =>
    obtain ⟨t, hslot, hrest⟩ := initStorage_cons h
    obtain ⟨hrings, hmarked, hkeeps⟩ := ih hrest
    obtain ⟨j, x, y, z, slot, hj, hdescribe, rfl⟩ := initSlot_place hslot
    obtain ⟨hmark, hnew⟩ := describe_spec hdescribe
    unfold ringsAt at hrings ⊢
    dsimp only at hrings hkeeps
    by_cases hij : i = j
    · subst hij
      rw [Function.update_self] at hrings hkeeps
      rw [List.filter_cons_of_pos (by simpa using hj), List.flatMap_cons, hrings, hnew,
        List.append_assoc]
      exact ⟨rfl, fun _ => hkeeps hmark, fun _ => hkeeps hmark⟩
    · rw [Function.update_of_ne hij] at hrings hkeeps
      have hne : placeOf slotpos ≠ some i := by
        rw [hj]
        exact fun h => hij (Option.some.inj h).symm
      rw [List.filter_cons_of_neg (by simpa using hne), hrings]
      refine ⟨rfl, ?_, hkeeps⟩
      rintro ⟨other, hother, hplace⟩
      rcases List.mem_cons.mp hother with rfl | hother
      · exact absurd hplace hne
      · exact hmarked ⟨other, hother, hplace⟩

/-- What a place holds after these slots were configured, and what it held before. -/
def PlaceAfter (config : String → List String) (slotIds : List String) (i : Fin STORAGE_SIZE)
    (old new : Storage) : Prop :=
  ((∀ slotpos ∈ slotIds, placeOf slotpos ≠ some i) ∧ new = old) ∨
    ((∃ slotpos ∈ slotIds, placeOf slotpos = some i) ∧
      ∀ slotpos ∈ slotIds, placeOf slotpos = some i → Decodes (config slotpos) new)

section

variable {last : String} {old mid new : Storage}

/-- A slot of another place. -/
theorem PlaceAfter.snoc_of_ne (h : PlaceAfter config slotIds i old new)
    (hne : placeOf last ≠ some i) : PlaceAfter config (slotIds ++ [last]) i old new := by
  rcases h with ⟨hnone, hold⟩ | ⟨⟨other, hother, hplace⟩, hdecodes⟩
  · refine .inl ⟨fun slotpos hmem => ?_, hold⟩
    rcases List.mem_append.mp hmem with hmem | hmem
    · exact hnone slotpos hmem
    · rw [List.mem_singleton.mp hmem]
      exact hne
  · refine .inr ⟨⟨other, List.mem_append_left _ hother, hplace⟩, fun slotpos hmem hi => ?_⟩
    rcases List.mem_append.mp hmem with hmem | hmem
    · exact hdecodes slotpos hmem hi
    · rw [List.mem_singleton.mp hmem] at hi
      exact absurd hi hne

/-- A slot of this place, which has no rings yet. -/
theorem PlaceAfter.snoc (h : PlaceAfter config slotIds i old mid) (hold : old.ringColors = [])
    (hi : placeOf last = some i) (hlast : ∀ other ∈ slotIds, Compatible config other last)
    (hnew : mid.ringColors = [] → Decodes (config last) new) :
    PlaceAfter config (slotIds ++ [last]) i old new := by
  refine .inr ⟨⟨last, List.mem_append_right _ List.mem_cons_self, hi⟩, ?_⟩
  intro slotpos hmem hplace
  rcases h with ⟨hnone, hmid⟩ | ⟨⟨other, hother, hoplace⟩, hdecodes⟩
  · -- the slot is configured for the first time
    have hself : slotpos = last := by
      rcases List.mem_append.mp hmem with hmem | hmem
      · exact absurd hplace (hnone slotpos hmem)
      · exact List.mem_singleton.mp hmem
    rw [hself]
    exact hnew (by rw [hmid, hold])
  · -- it is configured again, to the same
    have hrings : mid.ringColors = [] := by
      obtain ⟨-, hlength⟩ := hlast other hother (hoplace.trans hi.symm)
      have hcount := (hdecodes other hother hoplace).length_eq
      apply List.eq_nil_of_length_eq_zero
      omega
    rcases List.mem_append.mp hmem with hmem | hmem
    · rw [(hlast slotpos hmem (hplace.trans hi.symm)).1]
      exact hnew hrings
    · rw [List.mem_singleton.mp hmem]
      exact hnew hrings

end

/-- What the array says about the places after some of the slots are configured. -/
theorem initStorage_of_wellFormed (hfresh : ∀ i, (s.storage i).ringColors = [])
    (hwell : ∀ slotpos ∈ slotIds,
      (placeOf slotpos).isSome = true ∧ WellFormed (config slotpos))
    (hpair : slotIds.Pairwise (Compatible config)) :
    ∃ s', s.initStorage config slotIds = some s' ∧
      ∀ i, PlaceAfter config slotIds i (s.storage i) (s'.storage i) := by
  induction slotIds using List.reverseRecOn with
  | nil => exact ⟨s, rfl, fun i => .inl ⟨nofun, rfl⟩⟩
  | append_singleton slotIds last ih =>
    -- by induction from the end, as the last entry for a place wins
    rw [List.pairwise_append] at hpair
    obtain ⟨hpair, -, hlast⟩ := hpair
    have hmem : last ∈ slotIds ++ [last] := List.mem_append_right _ List.mem_cons_self
    obtain ⟨t, ht, hslots⟩ := ih (fun slotpos h => hwell slotpos (List.mem_append_left _ h)) hpair
    obtain ⟨s', hs'⟩ := Option.isSome_iff_exists.mp
      (initSlot_isSome (s := t) (hwell last hmem).1 (hwell last hmem).2)
    obtain ⟨j, x, y, z, slot, hj, hdescribe, heq⟩ := initSlot_place hs'
    refine ⟨s', ?_, fun i => ?_⟩
    · rw [initStorage, List.foldlM_append, ← initStorage, ht, Option.bind_eq_bind,
        Option.bind_some, List.foldlM_cons, hs']
      rfl
    rw [heq]
    dsimp only
    by_cases hij : i = j
    · subst hij
      rw [Function.update_self]
      apply (hslots i).snoc (hfresh i) hj
      · exact fun other hother => hlast other hother last List.mem_cons_self
      · exact fun hrings => decodes_describe (hwell last hmem).2 hrings hdescribe
    · rw [Function.update_of_ne hij]
      apply (hslots i).snoc_of_ne
      rw [hj]
      exact fun h => hij (Option.some.inj h).symm

theorem initStorage_places (h : s.initStorage config slotIds = some s') :
    ∀ slotpos ∈ slotIds, (placeOf slotpos).isSome = true := by
  induction slotIds generalizing s with
  | nil => exact nofun
  | cons slotpos slotIds ih =>
    obtain ⟨t, hslot, hrest⟩ := initStorage_cons h
    obtain ⟨i, x, y, z, slot, hi, -⟩ := initSlot_place hslot
    intro other hother
    rcases List.mem_cons.mp hother with rfl | hother
    · rw [hi]
      rfl
    · exact ih hrest other hother

/-- The rings of two lists for one place are both in the slot, one after the other. -/
theorem Understood.compatible (hu : Understood config slotIds s')
    (h : s.initStorage config slotIds = some s') (hfresh : ∀ i, (s.storage i).ringColors = []) :
    slotIds.Pairwise (Compatible config) := by
  rw [List.pairwise_iff_forall_sublist]
  intro a b hsub hplaces
  have hmem : ∀ slotpos ∈ [a, b], slotpos ∈ slotIds := fun _ hin => hsub.subset hin
  obtain ⟨i, hi⟩ := Option.isSome_iff_exists.mp (initStorage_places h a (hmem a (by simp)))
  have hj : placeOf b = some i := hplaces.symm.trans hi
  obtain ⟨hrings, hmarked, -⟩ := initStorage_spec h i
  obtain ⟨-, hdecodes⟩ := hu i (hmarked ⟨a, hmem a (by simp), hi⟩)
  have ha := hdecodes a (hmem a (by simp)) hi
  have hb := hdecodes b (hmem b (by simp)) hj
  have hboth : (ringsOf (config a) ++ ringsOf (config b)).Sublist (s'.storage i).ringColors := by
    have hfilter := (hsub.filter fun slotpos => placeOf slotpos = some i).flatMap
      fun slotpos => ringsOf (config slotpos)
    rw [List.filter_cons_of_pos (by simpa using hi), List.filter_cons_of_pos (by simpa using hj)]
      at hfilter
    rw [hrings, hfresh, List.nil_append]
    simpa [ringsAt] using hfilter
  have hnil : (s'.storage i).ringColors = [] := by
    have hlength := hboth.length_le
    rw [List.length_append, ← ha.ringColors_eq, ← hb.ringColors_eq] at hlength
    apply List.eq_nil_of_length_eq_zero
    omega
  refine ⟨ha.unique hb hnil, ?_⟩
  rw [ha.length_eq, hnil]
  rfl

end GazeboRcll
