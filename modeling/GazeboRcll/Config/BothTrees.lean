import GazeboRcll.Config.LeafStore

/-!
# The two trees of a configuration

`root_` has the values of all files and `host_root_` those of the host file alone. A setter changes
`root_` first and `erase` changes `host_root_` first, and what throws on the first of the two is not
tried on the second.

`both_or_none`: in a run in which no value is refused for its type, the values of the host file are
those that lookups find, and each call changes both trees or none of them.
-/

namespace GazeboRcll

namespace YamlConfiguration

/-- `erase`. -/
def erase (access : String → WriteAccess) (c : YamlConfiguration) (path : String) :
    Thrown YamlConfiguration :=
  let h := c.hostRoot.eraseWithStack path
  let c := { c with hostRoot := h.1 }
  match h.2 with
  | some e => (c, some e)
  | none =>
    let r := c.root.eraseWithStack path
    let c := { c with root := r.1 }
    match r.2 with
    | some e => (c, some e)
    | none => (c, c.writeHostFile access)

/-- The values that lookups find. -/
def rootStore (c : YamlConfiguration) : LeafStore := c.root.toPathMap

/-- The values for the host file. -/
def fileStore (c : YamlConfiguration) : LeafStore := c.hostRoot.toPathMap

/-- Both trees have their children in order. -/
def Sorted (c : YamlConfiguration) : Prop := c.root.Sorted ∧ c.hostRoot.Sorted

/-- What is in the host file is what lookups find. -/
def HostWithin (c : YamlConfiguration) : Prop :=
  ∀ q v, c.fileStore.entry q = some v →
    ∃ w, c.rootStore.entry q = some w ∧ w.visible = v.visible

end YamlConfiguration

/-! ## Calls -/

/-- A call that changes a configuration. -/
inductive ConfigCall where
  | set (path : String) (s : Setter)
  | erase (path : String)
deriving DecidableEq

namespace NodeInput

/-- What is read back after this was set. -/
def visible : NodeInput → NodeType × Reading
  | scalar s => ((scalarType s).getD .unknown, .text s)
  | list l => (.sequence, .list l)

/-- It is not refused for its type, and the type does not come from a list that was there. -/
def Fits (v : NodeValue) : NodeInput → Prop
  | scalar s => (scalarType s).isSome = true ∧ v.type ≠ .sequence
  | list _ => True

end NodeInput

namespace ConfigCall

variable (access : String → WriteAccess) (c : YamlConfiguration)

def run : ConfigCall → Thrown YamlConfiguration
  | set path s => s.run access c path
  | erase path => c.erase access path

/-- What the call asks of each tree. -/
def op : ConfigCall → HostOp
  | set path s => .set path s.input
  | erase path => .erase path

def Fits : ConfigCall → Prop
  | set path s => strSplit path ≠ [] ∧ s.input.Fits (c.rootStore.found (strSplit path))
  | erase _ => True

/-- The call can be made on a flat store, both trees follow it, and then only writing the file may
throw; or else it throws, and both trees stay. -/
def BothOrNone (call : ConfigCall) : Prop :=
  let c' := (call.run access c).1
  (c.rootStore.answer call.op = none ∧ c'.rootStore = c.rootStore.apply call.op ∧
      c'.fileStore = c.fileStore.apply call.op ∧
      (call.run access c).2 = c'.writeHostFile access) ∨
    c'.rootStore = c.rootStore ∧ c'.fileStore = c.fileStore ∧ ∃ e, (call.run access c).2 = some e

/-- The configuration after some calls, also after ones that have thrown. -/
def runAll (calls : List ConfigCall) : YamlConfiguration :=
  calls.foldl (fun c call => (call.run access c).1) c

/-- Each call fits when it is made. -/
def AllFit : YamlConfiguration → List ConfigCall → Prop
  | _, [] => True
  | c, call :: calls => call.Fits c ∧ AllFit (call.run access c).1 calls

end ConfigCall

/-! ## What is set -/

namespace NodeInput

variable {v : NodeValue}

/-- A value that fits is what the lookups see afterwards, and writing it does not throw. -/
theorem write_of_fits {i : NodeInput} (h : i.Fits v) (name : String) :
    (i.write name v).1.visible = i.visible ∧ (i.write name v).2 = none := by
  cases i with
  | list l => exact ⟨rfl, rfl⟩
  | scalar s =>
    obtain ⟨type, htype⟩ := Option.isSome_iff_exists.mp h.1
    have hne : type ≠ .sequence := by
      rintro rfl
      cases isScalar_of_scalarType htype
    rw [write, NodeValue.setScalar_of_ne_sequence h.2, visible, htype]
    refine ⟨?_, rfl⟩
    show (type, (NodeValue.mk type s v.list).reading) = _
    rw [NodeValue.reading, if_neg hne]
    rfl

/-- Whether it fits is seen from outside. -/
theorem Fits.congr {i : NodeInput} {w : NodeValue} (h : i.Fits v) (hvw : v.visible = w.visible) :
    i.Fits w := by
  cases i with
  | list l => trivial
  | scalar s =>
    have htype : v.type = w.type := congrArg Prod.fst hvw
    exact ⟨h.1, htype ▸ h.2⟩

/-- It fits a new node if it fits any. -/
theorem Fits.new {i : NodeInput} (h : i.Fits v) : i.Fits .new := by
  cases i with
  | list l => trivial
  | scalar s => exact ⟨h.1, by decide⟩

end NodeInput

namespace YamlConfiguration

variable {c : YamlConfiguration} {q : List String}

/-- Where the host tree has a value, the whole configuration has one. -/
theorem HostWithin.isSome (h : c.HostWithin) (hq : (c.fileStore.entry q).isSome = true) :
    (c.rootStore.entry q).isSome = true := by
  obtain ⟨v, hv⟩ := Option.isSome_iff_exists.mp hq
  obtain ⟨w, hw, -⟩ := h q v hv
  rw [hw]
  rfl

theorem HostWithin.entry_eq_none (h : c.HostWithin) (hq : c.rootStore.entry q = none) :
    c.fileStore.entry q = none := by
  rw [← Option.not_isSome_iff_eq_none] at hq ⊢
  exact fun hsome => hq (h.isSome hsome)

/-- What can be set in the tree of all files can be set in that of the host file. -/
theorem HostWithin.not_occupied (h : c.HostWithin) (hq : ¬ c.rootStore.Occupied q) :
    ¬ c.fileStore.Occupied q := by
  intro ⟨k, r, hr⟩
  exact hq ⟨k, r, h.isSome hr⟩

/-- What fits into the whole configuration fits into the host tree. -/
theorem HostWithin.fits {i : NodeInput} (h : c.HostWithin) (hfits : i.Fits (c.rootStore.found q)) :
    i.Fits (c.fileStore.found q) := by
  rw [LeafStore.found]
  cases hv : c.fileStore.entry q with
  | none => exact hfits.new
  | some v =>
    obtain ⟨w, hw, hvisible⟩ := h q v hv
    rw [LeafStore.found, hw] at hfits
    exact hfits.congr hvisible

end YamlConfiguration

namespace LeafStore

variable {m : LeafStore} {path : String} {i : NodeInput}

/-- The setters, where the value fits. -/
theorem answer_set (hocc : ¬ m.Occupied (strSplit path)) (h : i.Fits (m.found (strSplit path))) :
    m.answer (.set path i) = none := by
  rw [answer, if_neg hocc, (i.write_of_fits h _).2]

/-- Setting a value below no other one. -/
theorem apply_set (hocc : ¬ m.Occupied (strSplit path)) (hq : strSplit path ≠ []) :
    m.apply (.set path i) =
      m.put (strSplit path) (i.write (nameAt (strSplit path)) (m.found (strSplit path))).1 := by
  rw [apply, if_neg (not_or.mpr ⟨hq, hocc⟩)]

/-- Where values are below, setting one changes nothing. -/
theorem apply_set_of_occupied (hocc : m.Occupied (strSplit path)) : m.apply (.set path i) = m := by
  rw [apply, if_pos (.inr hocc)]

end LeafStore

/-! ## One call -/

namespace YamlConfiguration

variable {access : String → WriteAccess} {c : YamlConfiguration} {path : String} {e : ConfigError}

/-- The host tree is the first that is erased from: if this throws, `root_` is not touched. -/
theorem erase_of_host_thrown (h : (c.hostRoot.eraseWithStack path).2 = some e) :
    c.erase access path = ({ c with hostRoot := (c.hostRoot.eraseWithStack path).1 }, some e) := by
  simp only [erase, h]

/-- The host tree has lost the value already when erasing from `root_` throws. -/
theorem erase_of_root_thrown (h : (c.hostRoot.eraseWithStack path).2 = none)
    (h' : (c.root.eraseWithStack path).2 = some e) :
    c.erase access path =
      ({ c with root := (c.root.eraseWithStack path).1,
                hostRoot := (c.hostRoot.eraseWithStack path).1 }, some e) := by
  simp only [erase, h, h']

/-- Both values are erased, and then the file is written. -/
theorem erase_of_none (h : (c.hostRoot.eraseWithStack path).2 = none)
    (h' : (c.root.eraseWithStack path).2 = none) :
    c.erase access path =
      ({ c with root := (c.root.eraseWithStack path).1,
                hostRoot := (c.hostRoot.eraseWithStack path).1 }, c.writeHostFile access) := by
  simp only [erase, h, h']
  rfl

end YamlConfiguration

namespace Node

variable {t : Node}

/-- `erase` keeps the order of the children, also where it throws. -/
theorem eraseWithStack_fst (h : t.Sorted) (path : String) :
    (t.eraseWithStack path).1 = (HostOp.erase path).run t := by
  rw [eraseWithStack_eq h, HostOp.run]
  cases t.erase path <;> rfl

/-- Erasing from a tree erases from the map of its leaves. -/
theorem toPathMap_eraseWithStack (h : t.Sorted) (path : String) :
    (t.eraseWithStack path).1.toPathMap = LeafStore.apply t.toPathMap (.erase path) := by
  rw [eraseWithStack_fst h, HostOp.toPathMap_run h]

theorem sorted_eraseWithStack (h : t.Sorted) (path : String) :
    (t.eraseWithStack path).1.Sorted := by
  rw [eraseWithStack_fst h]
  exact HostOp.sorted_run h _

/-- Erasing from a tree throws what the map of its leaves answers. -/
theorem eraseWithStack_snd (h : t.Sorted) (path : String) :
    (t.eraseWithStack path).2 = LeafStore.answer t.toPathMap (.erase path) := by
  rw [eraseWithStack_eq h]
  rcases erase_eq_error_or h path with ⟨e, herase, -, hanswer⟩ | ⟨t', herase, -, hanswer⟩
  · rw [herase, hanswer]
  · rw [herase, hanswer]

end Node

namespace LeafStore

variable {m : LeafStore} {path : String} {e : ConfigError}

/-- Where `erase` throws, nothing is at the path. -/
theorem entry_of_erase_thrown (h : m.answer (.erase path) = some e) :
    m.entry (strSplit path) = none := by
  rw [answer] at h
  by_cases hocc : m.Occupied (strSplit path)
  · exact hocc.entry_eq_none
  · rw [if_neg hocc] at h
    by_contra hne
    rw [if_pos (.inr (Option.isSome_iff_ne_none.mpr hne))] at h
    cases h

theorem apply_erase_of_none (h : m.entry (strSplit path) = none) : m.apply (.erase path) = m :=
  PathMap.erase_of_none h

end LeafStore

namespace ConfigCall

variable {access : String → WriteAccess} {c : YamlConfiguration} {path : String} {s : Setter}

/-- A value is set in both trees, or it throws and both stay. -/
theorem bothOrNone_set (hwithin : c.HostWithin) (hfits : (set path s).Fits c) :
    (set path s).BothOrNone access c := by
  obtain ⟨hq, hfits⟩ := hfits
  have hthrown : (c.root.setInput path s.input).2 = c.rootStore.answer (.set path s.input) :=
    Node.thrown_setInput hq
  have hthrown' : (c.hostRoot.setInput path s.input).2 = c.fileStore.answer (.set path s.input) :=
    Node.thrown_setInput hq
  have happly := c.root.toPathMap_setInput path s.input
  have happly' := c.hostRoot.toPathMap_setInput path s.input
  by_cases hocc : c.rootStore.Occupied (strSplit path)
  · -- the first tree throws, and the second one is not tried
    rw [LeafStore.answer, if_pos hocc] at hthrown
    have hrun : ((set path s).run access c) = _ := (s.run_eq access c path).trans
      (YamlConfiguration.setBoth_of_root_thrown (f := fun t => t.setInput path s.input) hthrown)
    rw [BothOrNone, hrun]
    refine .inr ⟨?_, rfl, _, rfl⟩
    exact happly.trans (LeafStore.apply_set_of_occupied hocc)
  · -- what the first tree takes, the second one takes as well
    have hanswer := LeafStore.answer_set hocc hfits
    rw [LeafStore.answer_set hocc hfits] at hthrown
    rw [LeafStore.answer_set (hwithin.not_occupied hocc) (hwithin.fits hfits)] at hthrown'
    have hrun : ((set path s).run access c) = _ := (s.run_eq access c path).trans
      (YamlConfiguration.setBoth_of_none (f := fun t => t.setInput path s.input) hthrown hthrown')
    rw [BothOrNone, hrun]
    exact .inl ⟨hanswer, happly, happly', rfl⟩

/-- A value is erased from both trees, or it throws and both stay. -/
theorem bothOrNone_erase (hsorted : c.Sorted) (hwithin : c.HostWithin) (path : String) :
    (erase path).BothOrNone access c := by
  have happly := Node.toPathMap_eraseWithStack hsorted.1 path
  have happly' := Node.toPathMap_eraseWithStack hsorted.2 path
  rw [BothOrNone, run]
  cases hthrown' : (c.hostRoot.eraseWithStack path).2 with
  | some e =>
    rw [YamlConfiguration.erase_of_host_thrown hthrown']
    rw [Node.eraseWithStack_snd hsorted.2] at hthrown'
    have hnone := LeafStore.entry_of_erase_thrown hthrown'
    exact .inr ⟨rfl, happly'.trans (LeafStore.apply_erase_of_none hnone), e, rfl⟩
  | none =>
    cases hthrown : (c.root.eraseWithStack path).2 with
    | none =>
      rw [YamlConfiguration.erase_of_none hthrown' hthrown]
      rw [Node.eraseWithStack_snd hsorted.1] at hthrown
      exact .inl ⟨hthrown, happly, happly', rfl⟩
    | some e =>
      -- nothing is at the path in the tree of all files, so nothing was in that of the host file
      rw [YamlConfiguration.erase_of_root_thrown hthrown' hthrown]
      rw [Node.eraseWithStack_snd hsorted.1] at hthrown
      have hnone := LeafStore.entry_of_erase_thrown hthrown
      have hnone' := hwithin.entry_eq_none hnone
      exact .inr ⟨happly.trans (LeafStore.apply_erase_of_none hnone),
        happly'.trans (LeafStore.apply_erase_of_none hnone'), e, rfl⟩

theorem bothOrNone (access : String → WriteAccess) (hsorted : c.Sorted) (hwithin : c.HostWithin)
    {call : ConfigCall} (hfits : call.Fits c) : call.BothOrNone access c := by
  cases call with
  | set path s => exact bothOrNone_set hwithin hfits
  | erase path => exact bothOrNone_erase hsorted hwithin path

/-- A call that is made on both stores keeps the one within the other. -/
theorem entry_apply_within (hwithin : c.HostWithin) {call : ConfigCall} (hfits : call.Fits c)
    (hanswer : c.rootStore.answer call.op = none) (q : List String) (v : NodeValue)
    (hv : (c.fileStore.apply call.op).entry q = some v) :
    ∃ w, (c.rootStore.apply call.op).entry q = some w ∧ w.visible = v.visible := by
  cases call with
  | erase path =>
    rw [op, LeafStore.apply, PathMap.erase] at hv
    rw [op, LeafStore.apply, PathMap.erase]
    dsimp only at hv ⊢
    split_ifs at hv ⊢ with hq
    exact hwithin q v hv
  | set path s =>
    obtain ⟨hne, hfits⟩ := hfits
    have hocc : ¬ c.rootStore.Occupied (strSplit path) := by
      intro hocc
      rw [op, LeafStore.answer, if_pos hocc] at hanswer
      cases hanswer
    have hocc' := hwithin.not_occupied hocc
    rw [op, LeafStore.apply_set hocc' hne, PathMap.entry_put hocc'] at hv
    rw [op, LeafStore.apply_set hocc hne, PathMap.entry_put hocc]
    by_cases hq : q = strSplit path
    · -- both have what was set, whatever each of them had before
      rw [if_pos hq] at hv ⊢
      refine ⟨_, rfl, ?_⟩
      rw [← Option.some.inj hv, (s.input.write_of_fits hfits _).1,
        (s.input.write_of_fits (hwithin.fits hfits) _).1]
    · rw [if_neg hq] at hv ⊢
      by_cases hpre : q <+: strSplit path
      · rw [if_pos hpre] at hv
        cases hv
      · rw [if_neg hpre] at hv ⊢
        exact hwithin q v hv

/-- After a call the values of the host file are found still. -/
theorem hostWithin_run (hsorted : c.Sorted) (hwithin : c.HostWithin) {call : ConfigCall}
    (hfits : call.Fits c) : (call.run access c).1.HostWithin := by
  intro q v hv
  rcases bothOrNone access hsorted hwithin hfits with
    ⟨hanswer, hroot, hfile, -⟩ | ⟨hroot, hfile, -⟩
  · rw [hfile] at hv
    rw [hroot]
    exact entry_apply_within hwithin hfits hanswer q v hv
  · rw [hfile] at hv
    rw [hroot]
    exact hwithin q v hv

/-- A setter that throws before it comes to the host tree leaves it alone. -/
theorem hostRoot_set (access : String → WriteAccess) (c : YamlConfiguration) (path : String)
    (s : Setter) :
    ((set path s).run access c).1.hostRoot = c.hostRoot ∨
      ((set path s).run access c).1.hostRoot = (c.hostRoot.setInput path s.input).1 := by
  rw [run, s.run_eq]
  cases h : (c.root.setInput path s.input).2 with
  | some e =>
    rw [YamlConfiguration.setBoth_of_root_thrown (f := fun t => t.setInput path s.input) h]
    exact .inl rfl
  | none =>
    cases h' : (c.hostRoot.setInput path s.input).2 with
    | some e =>
      rw [YamlConfiguration.setBoth_of_host_thrown (f := fun t => t.setInput path s.input) h h']
      exact .inr rfl
    | none =>
      rw [YamlConfiguration.setBoth_of_none (f := fun t => t.setInput path s.input) h h']
      exact .inr rfl

theorem sorted_run (h : c.Sorted) (call : ConfigCall) : (call.run access c).1.Sorted := by
  cases call with
  | set path s =>
    constructor
    · rw [run, root_run]
      exact Node.sorted_setInput h.1
    · rcases hostRoot_set access c path s with heq | heq
      · rw [heq]
        exact h.2
      · rw [heq]
        exact Node.sorted_setInput h.2
  | erase path =>
    have hroot := Node.sorted_eraseWithStack h.1 path
    have hhost := Node.sorted_eraseWithStack h.2 path
    rw [run]
    cases h' : (c.hostRoot.eraseWithStack path).2 with
    | some e =>
      rw [YamlConfiguration.erase_of_host_thrown h']
      exact ⟨h.1, hhost⟩
    | none =>
      cases h'' : (c.root.eraseWithStack path).2 with
      | some e =>
        rw [YamlConfiguration.erase_of_root_thrown h' h'']
        exact ⟨hroot, hhost⟩
      | none =>
        rw [YamlConfiguration.erase_of_none h' h'']
        exact ⟨hroot, hhost⟩

/-! ## Runs -/

/-- What the calls keep is there before the last one, which fits then. -/
theorem runAll_induct {motive : YamlConfiguration → Prop} {calls : List ConfigCall}
    (hstep : ∀ c (call : ConfigCall), motive c → call.Fits c → motive (call.run access c).1)
    (hc : motive c) (hfit : AllFit access c calls) : motive (runAll access c calls) := by
  induction calls generalizing c with
  | nil => exact hc
  | cons call calls ih =>
    rw [runAll, List.foldl_cons]
    exact ih (hstep c call hc hfit.1) hfit.2

/-- One more call fits if it fits in the configuration that the others have left. -/
theorem allFit_concat {calls : List ConfigCall} {call : ConfigCall} :
    AllFit access c (calls ++ [call]) ↔
      AllFit access c calls ∧ call.Fits (runAll access c calls) := by
  induction calls generalizing c with
  | nil => simp [AllFit, runAll]
  | cons first calls ih =>
    rw [List.cons_append, AllFit, AllFit, ih, and_assoc]
    rfl

/-- In a run of fitting calls the values of the host file are found by lookups, with the same type,
and each call changes both trees or none. -/
theorem both_or_none (access : String → WriteAccess) {calls : List ConfigCall} {call : ConfigCall}
    (hsorted : c.Sorted) (hwithin : c.HostWithin) (hfit : AllFit access c (calls ++ [call])) :
    (runAll access c calls).HostWithin ∧ call.BothOrNone access (runAll access c calls) := by
  obtain ⟨hcalls, hcall⟩ := allFit_concat.mp hfit
  have hrun := runAll_induct (motive := fun c => c.Sorted ∧ c.HostWithin)
    (fun c call h hfits => ⟨sorted_run h.1 call, hostWithin_run h.1 h.2 hfits⟩)
    ⟨hsorted, hwithin⟩ hcalls
  exact ⟨hrun.2, bothOrNone access hrun.1 hrun.2 hcall⟩

/-- A default, and no host file yet. -/
def withDefault : YamlConfiguration where
  root := ⟨⟨.map, "", []⟩, .cons "a" ⟨.uint32, "1", []⟩ .nil .nil⟩
  hostRoot := Node.root
  hostFile := "host.yaml"

/-- A value of the host file that hides a default is erased from both trees. -/
theorem both_or_none_overridden :
    (runAll (fun _ => .granted) withDefault [.set "/a" (.uint 2)]).HostWithin ∧
      (erase "/a").BothOrNone (fun _ => .granted)
        (runAll (fun _ => .granted) withDefault [.set "/a" (.uint 2)]) := by
  apply both_or_none
  · exact ⟨by decide, by decide⟩
  · intro q v hv
    have hempty : withDefault.fileStore = PathMap.empty := KeyTree.toPathMap_childless _
    rw [hempty] at hv
    cases hv
  · refine ⟨⟨by decide, by decide, by decide⟩, trivial, trivial⟩

end ConfigCall

end GazeboRcll
