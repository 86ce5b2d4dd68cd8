import GazeboRcll.Config.Diff
import GazeboRcll.Config.HostFile
import GazeboRcll.Config.Merge
import GazeboRcll.Library.WorkQueue
import Mathlib.Data.List.Sort
import Mathlib.Data.String.Basic

/-!
# Loading a configuration

`YamlConfiguration::read_yaml_config` with `read_yaml_file` and `read_meta_doc`. A file may
include others, which go to the end of a queue, and nothing remembers which files were read.

`stops_unless_circular`: the loop stops unless a file that can be reached includes itself, and
then it does not finish. `Loads.mergeAll`: what was loaded is the merge of the documents in the
order of the files, the one of the host last. `Loads.exists_configTree`: what was loaded is a
configuration tree, and `ConfigTree.run` keeps it one.
-/

namespace GazeboRcll

open Relation

/-! ## Files -/

/-- A file that can be read, as `YAML::LoadAllFromFile` takes it. -/
inductive YamlFile where
  | malformed
  | docs (docs : List YamlDoc)

/-- A path for which `stat` succeeds, as `opendir` and `readdir` take it. -/
inductive Directory where
  | notDirectory
  | unreadable
  | names (names : List String)

/-- The files and directories, by their path, and `CONFDIR`. -/
structure FileSystem where
  confDir : String
  files : List (String × YamlFile)
  dirs : List (String × Directory)

structure LoadQueueEntry where
  filename : String
  ignoreMissing : Bool
  isDir : Bool
deriving DecidableEq, Repr

/-- What `read_yaml_file` returns, pushes on the queue and makes of the host file. -/
structure FileRead where
  subRoot : Option Node
  pushed : List LoadQueueEntry
  hostFile : String

/-- The value of the first entry with a key. -/
def Entries.find? (key : String) : Entries → Option YamlDoc
  | .nil => none
  | .leaf k value rest => if k = key then some (.leaf value) else rest.find? key
  | .map k entries rest => if k = key then some (.map entries) else rest.find? key

/-- `YAML_REGEX`. -/
def isYamlName (name : String) : Bool :=
  let stem := name.toList.take (name.length - 5)
  Strings.endsWith name ".yaml" && !stem.isEmpty &&
    stem.all fun c => c.isAlphanum || c = '_' || c = '-'

/-- The elements that the loop of `read_meta_doc` goes over. A scalar has no members, and the
members of a map are no strings. -/
def YamlDoc.includes : YamlDoc → Except ConfigError (List YamlElement)
  | .leaf (.scalar _ _) => .error .badMetaDoc
  | .leaf _ => .ok []
  | .map entries =>
    match entries.find? "include" with
    | some (.leaf (.sequence elements)) => .ok elements
    | some (.map (.leaf _ _ _)) | some (.map (.map _ _ _)) => .error .badMetaDoc
    | _ => .ok []

namespace FileSystem

variable (fs : FileSystem)

def file (filename : String) : Option YamlFile := fs.files.lookup filename

def dir (dirname : String) : Option Directory := fs.dirs.lookup dirname

def absCfgPath (path : String) : String :=
  if path.toList.head? = some '/' then path else fs.confDir ++ "/" ++ path

/-- What an include of a directory pushes: the directory and the files in it, in their order. -/
def readDirectory (dirname : String) (ignoreMissing : Bool) :
    Except ConfigError (List LoadQueueEntry) :=
  match fs.dir dirname with
  | none => if ignoreMissing then .ok [] else .error (.statFailed dirname)
  | some .notDirectory => .error (.notDirectory dirname)
  | some .unreadable => .error (.openDirFailed dirname)
  | some (.names names) =>
    let files := ((names.filter isYamlName).map (dirname ++ ·)).insertionSort (· ≤ ·)
    .ok (⟨dirname, ignoreMissing, true⟩ :: files.map fun f => ⟨f, ignoreMissing, false⟩)

/-- One turn of the loop of `read_meta_doc`. -/
def readInclude (hostFile : String) (it : YamlElement) :
    Except ConfigError (List LoadQueueEntry × String) :=
  match it.text with
  | none => .error .badElement
  | some path =>
    let ignoreMissing : Bool := it.tag = "tag:fawkesrobotics.org,cfg/ignore-missing"
    if it.tag = "tag:fawkesrobotics.org,cfg/host-specific" then
      if hostFile ≠ "" then .error .secondHostFile else .ok ([], fs.absCfgPath path)
    else if path = "" then .error .emptyInclude
    else if path.toList.getLast? = some '/' then
      (fs.readDirectory (fs.absCfgPath path) ignoreMissing).map fun pushed => (pushed, hostFile)
    else .ok ([⟨fs.absCfgPath path, ignoreMissing, false⟩], hostFile)

def readIncludes (hostFile : String) :
    List YamlElement → Except ConfigError (List LoadQueueEntry × String)
  | [] => .ok ([], hostFile)
  | it :: rest => do
    let r ← fs.readInclude hostFile it
    let r' ← readIncludes r.2 rest
    .ok (r.1 ++ r'.1, r'.2)

def readMetaDoc (doc : YamlDoc) (hostFile : String) :
    Except ConfigError (List LoadQueueEntry × String) := do
  let elements ← doc.includes
  fs.readIncludes hostFile elements

def readYamlFile (filename : String) (ignoreMissing : Bool) (hostFile : String) :
    Except ConfigError FileRead :=
  match fs.file filename with
  | none => if ignoreMissing then .ok ⟨none, [], hostFile⟩ else .error (.cannotAccess filename)
  | some .malformed => .error (.parseFailed filename)
  | some (.docs []) => .ok ⟨none, [], hostFile⟩
  | some (.docs [doc]) => do
    let subRoot ← Node.readConfigDoc doc
    .ok ⟨some subRoot, [], hostFile⟩
  | some (.docs (info :: doc :: _)) => do
    let r ← fs.readMetaDoc info hostFile
    let subRoot ← Node.readConfigDoc doc
    .ok ⟨some subRoot, r.1, r.2⟩

end FileSystem

/-! ## The loop -/

structure LoadState where
  queue : List LoadQueueEntry
  hostFile : String
  root : Node
  files : List String
  dirs : List String

/-- Before the first turn. Whoever calls `read_yaml_config` gives no host file. -/
def LoadState.start (filename : String) : LoadState :=
  ⟨[⟨filename, false, false⟩], "", Node.root, [], []⟩

namespace FileSystem

variable (fs : FileSystem)

/-- One turn of the loop of `read_yaml_config`, unless the queue is empty. -/
def turn (s : LoadState) : Except ConfigError LoadState :=
  match s.queue with
  | [] => .ok s
  | qe :: queue =>
    if qe.isDir then .ok { s with queue := queue, dirs := s.dirs ++ [qe.filename] }
    else do
      let r ← fs.readYamlFile qe.filename qe.ignoreMissing s.hostFile
      let s := { s with queue := queue ++ r.pushed, hostFile := r.hostFile }
      match r.subRoot with
      | none => .ok s
      | some subRoot => do
        let root ← s.root.addDocument subRoot
        .ok { s with root := root, files := s.files ++ [qe.filename] }

def turns : ℕ → LoadState → Except ConfigError LoadState
  | 0, s => .ok s
  | n + 1, s => do
    let s ← fs.turn s
    turns n s

/-- `read_yaml_config` after the loop: the configuration and its files. -/
def readHost (s : LoadState) : Except ConfigError (YamlConfiguration × List String) :=
  if s.hostFile = "" then .ok (⟨s.root, Node.root, s.hostFile⟩, s.files)
  else do
    let r ← fs.readYamlFile s.hostFile true s.hostFile
    if r.pushed ≠ [] then .error .includeInHostFile
    else
      match r.subRoot with
      | none => .ok (⟨s.root, Node.root, r.hostFile⟩, s.files)
      | some hostRoot => do
        let root ← s.root.addDocument hostRoot
        .ok (⟨root, hostRoot, r.hostFile⟩, s.files ++ [s.hostFile])

variable (filename : String)

/-- The loop comes to an end with an empty queue. -/
def Finishes : Prop := ∃ n s, fs.turns n (.start filename) = .ok s ∧ s.queue = []

def Throws : Prop := ∃ n e, fs.turns n (.start filename) = .error e

def Stops : Prop := fs.Finishes filename ∨ fs.Throws filename

/-- The configuration that `read_yaml_config` makes, and the files it is from. -/
def Loads (c : YamlConfiguration) (files : List String) : Prop :=
  ∃ n s, fs.turns n (.start filename) = .ok s ∧ s.queue = [] ∧ fs.readHost s = .ok (c, files)

/-- What reading a file puts on the queue, if it goes well. -/
def included (filename : String) : List LoadQueueEntry :=
  match fs.readYamlFile filename true "" with
  | .ok r => r.pushed
  | .error _ => []

/-- The document in a file, if there is one and reading goes well. -/
def document (filename : String) : Option Node :=
  match fs.readYamlFile filename true "" with
  | .ok r => r.subRoot
  | .error _ => none

/-- The first file includes the second, by its name or by the directory it is in. -/
def Includes (f g : String) : Prop := ∃ qe ∈ fs.included f, qe.isDir = false ∧ qe.filename = g

/-- A file that includes itself, maybe through others, can be reached. -/
def Circular : Prop :=
  ∃ g, ReflTransGen fs.Includes filename g ∧ TransGen fs.Includes g g

/-! ## Reading a file -/

variable {fs} {filename f g hostFile : String} {r : FileRead}

/-- The host file of before only matters where a second one is found. -/
theorem readInclude_eq_ok {it : YamlElement} {q : List LoadQueueEntry × String}
    (h : fs.readInclude hostFile it = .ok q) :
    hostFile = "" ∨ q.2 = hostFile ∧ fs.readInclude "" it = .ok (q.1, "") := by
  rw [readInclude] at h ⊢
  cases htext : it.text with
  | none =>
    rw [htext] at h
    cases h
  | some path =>
    rw [htext] at h
    dsimp only at h ⊢
    -- only a host-specific include looks at the host file
    by_cases hhost : it.tag = "tag:fawkesrobotics.org,cfg/host-specific"
    · rw [if_pos hhost] at h
      by_cases hfile : hostFile = ""
      · exact .inl hfile
      · rw [if_pos hfile] at h
        cases h
    · refine .inr ?_
      rw [if_neg hhost] at h ⊢
      by_cases hempty : path = ""
      · rw [if_pos hempty] at h
        cases h
      · rw [if_neg hempty] at h ⊢
        by_cases hdir : path.toList.getLast? = some '/'
        · rw [if_pos hdir] at h ⊢
          generalize fs.readDirectory _ _ = pushed at h ⊢
          cases pushed with
          | error e => cases h
          | ok pushed =>
            cases h
            exact ⟨rfl, rfl⟩
        · rw [if_neg hdir] at h ⊢
          cases h
          exact ⟨rfl, rfl⟩

/-- The name of the host file that is known before makes no difference to the queue. -/
theorem readIncludes_eq_ok {its : List YamlElement} {q : List LoadQueueEntry × String}
    (h : fs.readIncludes hostFile its = .ok q) :
    ∃ q', fs.readIncludes "" its = .ok q' ∧ q'.1 = q.1 := by
  induction its generalizing hostFile q with
  | nil =>
    cases h
    exact ⟨([], ""), rfl, rfl⟩
  | cons it rest ih =>
    obtain ⟨u, hu, hrest⟩ := exists_of_bind_eq_ok h
    rcases readInclude_eq_ok hu with rfl | ⟨-, hit⟩
    · exact ⟨q, h, rfl⟩
    · obtain ⟨w, hw, hrest⟩ := exists_of_bind_eq_ok hrest
      cases hrest
      obtain ⟨w', hw', hpushed⟩ := ih hw
      refine ⟨(u.1 ++ w'.1, w'.2), ?_, congrArg (u.1 ++ ·) hpushed⟩
      rw [readIncludes, hit]
      show (fs.readIncludes "" rest >>= fun r' => Except.ok (u.1 ++ r'.1, r'.2)) = _
      rw [hw']
      rfl

/-- What a file has in it does not depend on when it is read. -/
theorem readYamlFile_eq_ok {ignoreMissing : Bool}
    (h : fs.readYamlFile f ignoreMissing hostFile = .ok r) :
    fs.included f = r.pushed ∧ fs.document f = r.subRoot := by
  -- whether missing files are ignored and which host file is known does not matter
  suffices ∃ r', fs.readYamlFile f true "" = .ok r' ∧ r'.pushed = r.pushed ∧
      r'.subRoot = r.subRoot by
    obtain ⟨r', hr', hpushed, hroot⟩ := this
    rw [included, document, hr']
    exact ⟨hpushed, hroot⟩
  rw [readYamlFile] at h ⊢
  cases hfile : fs.file f with
  | none =>
    rw [hfile] at h
    cases ignoreMissing with
    | false => cases h
    | true =>
      cases h
      exact ⟨_, rfl, rfl, rfl⟩
  | some file =>
    rw [hfile] at h
    rcases file with _ | ⟨_ | ⟨info, _ | ⟨doc, more⟩⟩⟩
    -- a file that cannot be parsed, and one with no, one or more documents
    · cases h
    · cases h
      exact ⟨_, rfl, rfl, rfl⟩
    · obtain ⟨subRoot, hroot, h⟩ := exists_of_bind_eq_ok h
      cases h
      refine ⟨⟨some subRoot, [], ""⟩, ?_, rfl, rfl⟩
      show (Node.readConfigDoc info >>= _) = _
      rw [hroot]
      rfl
    · obtain ⟨q, hq, h⟩ := exists_of_bind_eq_ok h
      obtain ⟨subRoot, hroot, h⟩ := exists_of_bind_eq_ok h
      cases h
      obtain ⟨elements, helements, hq⟩ := exists_of_bind_eq_ok hq
      obtain ⟨q', hq', hpushed⟩ := readIncludes_eq_ok hq
      refine ⟨⟨some subRoot, q'.1, q'.2⟩, ?_, hpushed, rfl⟩
      show (fs.readMetaDoc info "" >>= _) = _
      rw [readMetaDoc, helements]
      show (fs.readIncludes "" elements >>= _) = _
      rw [hq']
      show (Node.readConfigDoc doc >>= _) = _
      rw [hroot]
      rfl

/-- A file that is not there includes nothing. -/
theorem included_eq_nil (h : f ∉ fs.files.map Prod.fst) : fs.included f = [] := by
  have hnone : fs.file f = none := by
    rw [file, List.lookup_eq_none_iff]
    intro p hp
    simp only [bne_iff_ne]
    rintro rfl
    exact h (List.mem_map_of_mem hp)
  rw [included, readYamlFile, hnone]
  rfl

/-! ## The queue -/

/-- What takes the place of an entry of the queue. -/
def successors (fs : FileSystem) (qe : LoadQueueEntry) : List LoadQueueEntry :=
  if qe.isDir then [] else fs.included qe.filename

/-- A turn takes a file from the queue and puts its includes there. -/
theorem queue_turn {s s' : LoadState} (h : fs.turn s = .ok s') :
    s'.queue = WorkQueue.step fs.successors s.queue := by
  rw [turn] at h
  cases hqueue : s.queue with
  | nil =>
    rw [hqueue] at h
    cases h
    exact hqueue
  | cons qe queue =>
    rw [hqueue] at h
    dsimp only at h
    rw [WorkQueue.step, successors]
    by_cases hdir : qe.isDir = true
    -- a directory is skipped when its turn comes
    · rw [if_pos hdir] at h ⊢
      cases h
      exact (List.append_nil queue).symm
    · rw [if_neg hdir] at h ⊢
      obtain ⟨r, hr, h⟩ := exists_of_bind_eq_ok h
      rw [(readYamlFile_eq_ok hr).1]
      cases hroot : r.subRoot with
      | none =>
        rw [hroot] at h
        cases h
        rfl
      | some subRoot =>
        rw [hroot] at h
        obtain ⟨root, -, h⟩ := exists_of_bind_eq_ok h
        cases h
        rfl

/-- Turns that do not throw work off the queue as it is defined. -/
theorem queue_turns {n : ℕ} {s s' : LoadState} (h : fs.turns n s = .ok s') :
    s'.queue = (WorkQueue.step fs.successors)^[n] s.queue := by
  induction n generalizing s with
  | zero =>
    cases h
    rfl
  | succ n ih =>
    rw [turns] at h
    obtain ⟨u, hu, h⟩ := exists_of_bind_eq_ok h
    rw [Function.iterate_succ_apply, ← queue_turn hu]
    exact ih h

/-- Following includes ends for the queue where it ends for the files. -/
theorem acc_successors_iff {qe : LoadQueueEntry} (hdir : qe.isDir = false) :
    Acc (fun c b => c ∈ fs.successors b) qe ↔ Acc (fun g f => fs.Includes f g) qe.filename := by
  have hsucc : ∀ qe : LoadQueueEntry, qe.isDir = false →
      fs.successors qe = fs.included qe.filename := by
    intro qe hqe
    rw [successors, hqe]
    rfl
  constructor
  · intro h
    induction h with
    | intro qe _ ih =>
      refine .intro _ fun g hg => ?_
      obtain ⟨c, hc, hcdir, rfl⟩ := hg
      exact ih c (by rwa [hsucc qe hdir]) hcdir
  · intro h
    generalize hname : qe.filename = name at h
    induction h generalizing qe with
    | intro name _ ih =>
      refine .intro _ fun c hc => ?_
      rw [hsucc qe hdir, hname] at hc
      cases hcdir : c.isDir with
      | false => exact ih c.filename ⟨c, hc, hcdir, rfl⟩ hcdir rfl
      | true =>
        refine .intro _ fun d hd => ?_
        rw [successors, if_pos hcdir] at hd
        cases hd

/-- Only finitely many files can be reached. -/
theorem finite_reached (fs : FileSystem) (filename : String) :
    {g | ReflTransGen fs.Includes filename g}.Finite := by
  let names := filename :: (fs.files.map Prod.fst).flatMap fun f =>
    (fs.included f).map LoadQueueEntry.filename
  refine (List.finite_toSet names).subset fun g hg => ?_
  rcases ReflTransGen.cases_tail hg with heq | ⟨f, -, qe, hqe, -, hname⟩
  · exact heq ▸ List.mem_cons_self
  · have hf : f ∈ fs.files.map Prod.fst := by
      by_contra hf
      rw [included_eq_nil hf] at hqe
      cases hqe
    exact List.mem_cons_of_mem _ (List.mem_flatMap.mpr
      ⟨f, hf, List.mem_map.mpr ⟨qe, hqe, hname⟩⟩)

/-- The queue drains, as far as reading goes well, unless there is a cycle. -/
theorem drains_iff (fs : FileSystem) (filename : String) :
    (∃ n, (WorkQueue.step fs.successors)^[n] (LoadState.start filename).queue = []) ↔
      ¬ fs.Circular filename := by
  have hstart : (LoadState.start filename).queue = [⟨filename, false, false⟩] := rfl
  have hacc : Acc (fun c b => c ∈ fs.successors b) ⟨filename, false, false⟩ ↔
      Acc (fun g f => fs.Includes f g) filename := acc_successors_iff rfl
  rw [hstart, WorkQueue.drains_iff, List.forall_mem_singleton, hacc,
    WorkQueue.acc_iff_no_cycle (fs.finite_reached filename)]
  rfl

/-- The loop stops unless a file that can be reached includes itself, and if one does, it does not
finish. -/
theorem stops_unless_circular (fs : FileSystem) (filename : String) :
    (¬ fs.Circular filename → fs.Stops filename) ∧
      (fs.Circular filename → ¬ fs.Finishes filename) := by
  constructor
  · intro hcircular
    obtain ⟨n, hn⟩ := (fs.drains_iff filename).mpr hcircular
    cases hturns : fs.turns n (.start filename) with
    | error e => exact .inr ⟨n, e, hturns⟩
    | ok s => exact .inl ⟨n, s, hturns, by rw [queue_turns hturns, hn]⟩
  · rintro hcircular ⟨n, s, hturns, hqueue⟩
    refine (fs.drains_iff filename).mp ⟨n, ?_⟩ hcircular
    rw [← queue_turns hturns, hqueue]

/-- A file that includes itself is read again and again. -/
theorem self_include_never_stops :
    ¬ Stops ⟨"/conf", [("/conf/config.yaml",
      .docs [.map (.leaf "include" (.sequence [⟨"", some "config.yaml"⟩]) .nil), .map .nil])], []⟩
        "/conf/config.yaml" := by
  generalize hfs : FileSystem.mk _ _ _ = fs
  have hread : fs.readYamlFile "/conf/config.yaml" false "" =
      .ok ⟨some Node.new, [⟨"/conf/config.yaml", false, false⟩], ""⟩ := by
    subst hfs
    rfl
  -- the queue, the host file and the tree are the same before every turn
  have hturns : ∀ n s, s.queue = [⟨"/conf/config.yaml", false, false⟩] → s.hostFile = "" →
      s.root = Node.root → ∃ s', fs.turns n s = .ok s' ∧ s'.queue ≠ [] := by
    intro n
    induction n with
    | zero =>
      intro s hqueue _ _
      exact ⟨s, rfl, by rw [hqueue]; exact List.cons_ne_nil _ _⟩
    | succ n ih =>
      rintro ⟨queue, hostFile, root, files, dirs⟩ rfl rfl rfl
      obtain ⟨s', hs', hne⟩ := ih ⟨[⟨"/conf/config.yaml", false, false⟩], "", Node.root,
        files ++ ["/conf/config.yaml"], dirs⟩ rfl rfl rfl
      refine ⟨s', ?_, hne⟩
      rw [turns, turn]
      show (fs.readYamlFile "/conf/config.yaml" false "" >>= _) >>= _ = _
      rw [hread]
      exact hs'
  rintro (⟨n, s, hs, hqueue⟩ | ⟨n, e, he⟩)
  · obtain ⟨s', hs', hne⟩ := hturns n (.start "/conf/config.yaml") rfl rfl rfl
    rw [hs] at hs'
    cases hs'
    exact hne hqueue
  · obtain ⟨s', hs', -⟩ := hturns n (.start "/conf/config.yaml") rfl rfl rfl
    rw [he] at hs'
    cases hs'

/-! ## What is loaded -/

/-- The tree is the merge of the documents in the files that were read. -/
structure ReadFrom (fs : FileSystem) (root : Node) (files : List String) (docs : List Node) :
    Prop where
  documents : files.map fs.document = docs.map some
  sorted : ∀ d ∈ docs, d.Sorted
  merged : Node.mergeAll docs = .ok root

/-- What a file contributes was read from a document. -/
theorem exists_readConfigDoc {d : Node} (h : fs.document f = some d) :
    ∃ doc, Node.readConfigDoc doc = .ok d := by
  rw [document] at h
  cases hread : fs.readYamlFile f true "" with
  | error e =>
    rw [hread] at h
    cases h
  | ok r =>
    rw [hread] at h
    change r.subRoot = some d at h
    rw [readYamlFile] at hread
    cases hfile : fs.file f with
    | none =>
      rw [hfile] at hread
      cases hread
      cases h
    | some file =>
      rw [hfile] at hread
      rcases file with _ | ⟨_ | ⟨info, _ | ⟨doc, more⟩⟩⟩
      · cases hread
      · cases hread
        cases h
      · obtain ⟨subRoot, hroot, hread⟩ := exists_of_bind_eq_ok hread
        cases hread
        cases h
        exact ⟨info, hroot⟩
      · obtain ⟨q, -, hread⟩ := exists_of_bind_eq_ok hread
        obtain ⟨subRoot, hroot, hread⟩ := exists_of_bind_eq_ok hread
        cases hread
        cases h
        exact ⟨doc, hroot⟩

/-- The keys of what a file contributes are in their order. -/
theorem sorted_document {d : Node} (h : fs.document f = some d) : d.Sorted := by
  obtain ⟨doc, hdoc⟩ := exists_readConfigDoc h
  exact Node.sorted_readConfigDoc hdoc

/-- One more document is merged into the tree. -/
theorem ReadFrom.add {root root' d : Node} {files : List String} {docs : List Node}
    (h : ReadFrom fs root files docs) (hd : fs.document f = some d)
    (hroot : root.addDocument d = .ok root') : ReadFrom fs root' (files ++ [f]) (docs ++ [d]) where
  documents := by
    rw [List.map_append, List.map_append, h.documents, List.map_singleton, hd]
    rfl
  sorted e he := by
    rcases List.mem_append.mp he with he | he
    · exact h.sorted e he
    · rw [List.mem_singleton.mp he]
      exact sorted_document hd
  merged := by
    rw [Node.mergeAll_append, h.merged]
    exact hroot

/-- A turn adds at most one file and its document. -/
theorem ReadFrom.turn {s s' : LoadState} {docs : List Node}
    (h : ReadFrom fs s.root s.files docs) (hs : fs.turn s = .ok s') :
    ∃ docs', ReadFrom fs s'.root s'.files docs' := by
  rw [FileSystem.turn] at hs
  cases hqueue : s.queue with
  | nil =>
    rw [hqueue] at hs
    cases hs
    exact ⟨docs, h⟩
  | cons qe queue =>
    rw [hqueue] at hs
    dsimp only at hs
    split_ifs at hs
    · cases hs
      exact ⟨docs, h⟩
    · obtain ⟨r, hr, hs⟩ := exists_of_bind_eq_ok hs
      cases hroot : r.subRoot with
      | none =>
        rw [hroot] at hs
        cases hs
        exact ⟨docs, h⟩
      | some subRoot =>
        rw [hroot] at hs
        obtain ⟨root, hadd, hs⟩ := exists_of_bind_eq_ok hs
        cases hs
        exact ⟨docs ++ [subRoot], h.add ((readYamlFile_eq_ok hr).2.trans hroot) hadd⟩

/-- Whatever number of turns was made, the tree is the merge of the documents read. -/
theorem ReadFrom.turns {n : ℕ} {s s' : LoadState} {docs : List Node}
    (h : ReadFrom fs s.root s.files docs) (hs : fs.turns n s = .ok s') :
    ∃ docs', ReadFrom fs s'.root s'.files docs' := by
  induction n generalizing s docs with
  | zero =>
    cases hs
    exact ⟨docs, h⟩
  | succ n ih =>
    rw [FileSystem.turns] at hs
    obtain ⟨u, hu, hs⟩ := exists_of_bind_eq_ok hs
    obtain ⟨docs', h'⟩ := h.turn hu
    exact ih h' hs

/-- A configuration that was loaded is the merge of the documents in its files, the one of the
host being the last. -/
theorem Loads.mergeAll {c : YamlConfiguration} {files : List String}
    (h : fs.Loads filename c files) : ∃ docs, ReadFrom fs c.root files docs := by
  obtain ⟨n, s, hturns, -, hhost⟩ := h
  have hstart : ReadFrom fs Node.root [] [] := ⟨rfl, nofun, rfl⟩
  obtain ⟨docs, hdocs⟩ := ReadFrom.turns (s := .start filename) hstart hturns
  rw [readHost] at hhost
  split_ifs at hhost
  · cases hhost
    exact ⟨docs, hdocs⟩
  · obtain ⟨r, hr, hhost⟩ := exists_of_bind_eq_ok hhost
    split_ifs at hhost
    cases hroot : r.subRoot with
    | none =>
      rw [hroot] at hhost
      cases hhost
      exact ⟨docs, hdocs⟩
    | some hostRoot =>
      rw [hroot] at hhost
      obtain ⟨root, hadd, hhost⟩ := exists_of_bind_eq_ok hhost
      cases hhost
      exact ⟨docs ++ [hostRoot], hdocs.add ((readYamlFile_eq_ok hr).2.trans hroot) hadd⟩

/-- What was loaded is a configuration tree. -/
theorem Loads.exists_configTree {c : YamlConfiguration} {files : List String}
    (h : fs.Loads filename c files) : ∃ t : ConfigTree, t.node = c.root := by
  obtain ⟨docs, hdocs⟩ := h.mergeAll
  have htidy : ∀ d ∈ docs, d.Sorted ∧ d.Slashless := by
    intro d hd
    have hmem : some d ∈ files.map fs.document := by
      rw [hdocs.documents]
      exact List.mem_map_of_mem hd
    obtain ⟨f, -, hf⟩ := List.mem_map.mp hmem
    obtain ⟨doc, hdoc⟩ := exists_readConfigDoc hf
    exact ⟨(ConfigTree.ofDocument hdoc).sorted, (ConfigTree.ofDocument hdoc).slashless⟩
  obtain ⟨hsorted, hslash⟩ := Node.tidy_mergeAll htidy hdocs.merged
  exact ⟨⟨c.root, hsorted, hslash⟩, rfl⟩

end FileSystem

/-- What setting or erasing makes of a configuration tree. -/
def ConfigTree.run (t : ConfigTree) (op : HostOp) : ConfigTree where
  node := op.run t.node
  sorted := HostOp.sorted_run t.sorted op
  slashless := HostOp.allKeys_run (fun _ hk => hk.2) t.sorted t.slashless op

end GazeboRcll
