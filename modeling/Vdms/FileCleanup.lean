import Mathlib.Data.List.Infix
import Vdms.ExpirationQueue

/-!
# Files and the Nodes They Belong To

A node may name files in its path properties. A purge notes the files of the nodes that it
removes in a list that all handlers share, and every request that succeeds goes over the
whole list and deletes the files in it that lie under the path of the videos; an expiry
deletes the files at once. Neither waits for the commit, and nothing is ever taken off the
list.

So the files that are deleted are those of the nodes that committed transactions have
removed, if no transaction that is rolled back notes or deletes a file, if no edge names
one, and if all noted files are videos.

## Main definitions

* `cleanupFiles`: what a request does that succeeds.
* `Command.SparesFiles`: the command neither notes nor deletes a file.
* `Server.Step`: transactions and clean-ups, of any number of clients, in any order.
* `Server.Follows`: the files that are gone are those of the nodes that are gone.

## Main results

* `dispatch_files`: what a command notes or deletes are the files of the nodes it removes.
* `Commits.files`: the same for a committed transaction.
* `cleanup_follows_commit`: the same for every run of the server.
-/

namespace Vdms

open Imp Imp.Prog Platform Relation

/-- What `cleanup_pmgd_files` has done so far: the files it has deleted, and the entries of
the list it has gone over, by their positions. -/
structure CleanUp where
  removed : List String := []
  processed : List ℕ := []

/-- The loop of `cleanup_pmgd_files`, from the entry at `it` on. -/
def cleanupFrom (pathVideos : String) (it : ℕ) (c : CleanUp) : List String → CleanUp
  | [] => c
  | filename :: names =>
      let removed :=
        if pathVideos.toList <:+: filename.toList then c.removed ++ [filename] else c.removed
      cleanupFrom pathVideos (it + 1) ⟨removed, c.processed ++ [it]⟩ names

/-- `cleanup_pmgd_files`: the files of the list that it deletes. -/
def cleanupPmgdFiles (pathVideos : String) (names : List String) : List String :=
  (cleanupFrom pathVideos 0 {} names).removed

/-- The loop removes the files of videos among the names, and counts each name once. -/
theorem cleanupFrom_eq (pathVideos : String) (it : ℕ) (c : CleanUp) (names : List String) :
    cleanupFrom pathVideos it c names =
      ⟨c.removed ++ names.filter fun name => pathVideos.toList <:+: name.toList,
        c.processed ++ List.range' it names.length⟩ := by
  induction names generalizing it c with
  | nil => simp [cleanupFrom]
  | cons filename names ih =>
      rw [cleanupFrom]
      rw [ih]
      by_cases hvideo : pathVideos.toList <:+: filename.toList
      · simp [hvideo, List.range'_succ]
      · simp [hvideo, List.range'_succ]

/-- `cleanup_pmgd_files` removes the files whose names contain the path of videos. -/
theorem cleanupPmgdFiles_eq (pathVideos : String) (names : List String) :
    cleanupPmgdFiles pathVideos names =
      names.filter fun name => pathVideos.toList <:+: name.toList := by
  simp [cleanupPmgdFiles, cleanupFrom_eq]

/-- `cleanup_files`. -/
def cleanupFiles (pathVideos : String) : Handling Unit :=
  modify fun s =>
    { s with removedFiles := s.removedFiles ++ cleanupPmgdFiles pathVideos s.cleanupFiles }

section

variable [Platform]

/-! ### The files of an element -/

/-- The file that a property of an element names. -/
def Graph.fileAt (g : Graph) (x : Element) (key : String) : Option String :=
  match g.props x (stringID key) with
  | some (.string file) => some file
  | _ => none

/-- The files that the path properties of an element name. -/
def Graph.files (g : Graph) (x : Element) : List String := pathProps.filterMap (g.fileAt x)

/-- The file is listed or deleted. -/
def Handler.Filed (s : Handler) (file : String) : Prop :=
  file ∈ s.cleanupFiles ∨ file ∈ s.removedFiles

namespace Graph

variable {g g' : Graph} {n : NodeID}

/-- A node that is not there has no files. -/
theorem files_of_not_has (h : ¬ g.Has n) : g.files (.node n) = [] := by
  have hnone : g.node n = none := by
    rw [Has] at h
    simpa using h
  have hat : ∀ key, g.fileAt (.node n) key = none := fun key => by simp [fileAt, props, hnone]
  simp [files, hat]

/-- A node that is still there has the files that it had. -/
theorem Below.files_node (h : g.Below g') (hn : g.Has n) :
    g.files (.node n) = g'.files (.node n) := by
  have hprops := (h.same hn).1
  have hat : g.fileAt (.node n) = g'.fileAt (.node n) := by
    funext key
    simp only [fileAt, hprops]
  simp only [files, hat]

/-- An edge without files before has none afterwards. -/
theorem Below.files_edge (h : g.Below g') {e : EdgeID} (hfiles : g'.files (.edge e) = []) :
    g.files (.edge e) = [] := by
  cases he : g.edge e with
  | none =>
      have hat : ∀ key, g.fileAt (.edge e) key = none := fun key => by simp [fileAt, props, he]
      simp [files, hat]
  | some ed =>
      have hat : g.fileAt (.edge e) = g'.fileAt (.edge e) := by
        funext key
        simp only [fileAt, props, he, h.edge e ed he]
      simp only [files, hat] at hfiles ⊢
      exact hfiles

omit [Platform] in
/-- Removing an edge leaves a graph below the one before. -/
theorem removeEdge_below (g : Graph) (e : EdgeID) : (g.removeEdge e).Below g where
  node _ _ h := h
  edge e' ed h := by
    rw [edge, removeEdge] at *
    rw [List.getElem?_set] at h
    split at h
    · split at h <;> cases h
    · exact h

end Graph

/-! ### Listed elements -/

omit [Platform] in
/-- `check_property` leaves the state as it is and returns what the graph has. -/
theorem checkProperty_reads (x : Element) (key : StringID) (s : Handler) :
    Reads (checkProperty x key) s fun v => v = s.db.props x key :=
  Sat.get_bind (Reads.pure rfl)

omit [Platform] in
/-- `string_value` leaves the state as it is and returns the text of the value. -/
theorem stringValue_reads [Platform] (v : Property) (s : Handler) :
    Reads v.stringValue s fun file => v = .string file := by
  cases v with
  | string file => exact Reads.pure rfl
  | _ => exact Sat.throw trivial

/-- What is done with the file that a property names, if it does name one. -/
theorem fileAt_ensures {f : String → Handler → Handler} (x : Element) (key : String)
    (s : Handler) :
    Ensures (do
      match ← checkProperty x (stringID key) with
      | some v => do
          let file ← v.stringValue
          modify (f file)
      | none => pure () : Handling Unit) s fun _ t =>
        t = (s.db.fileAt x key).elim s fun file => f file s := by
  refine Reads.bind (checkProperty_reads x _ s) fun v hv => ?_
  rw [Graph.fileAt]
  rw [← hv]
  cases v with
  | none => exact Sat.pure rfl
  | some v =>
      refine Reads.bind (stringValue_reads v s) fun file hfile => ?_
      subst hfile
      exact Sat.modify rfl

/-- All files of an element are noted. Induction on the properties. -/
theorem noteFiles_ensures (x : Element) (keys : List String) (s : Handler) :
    Ensures (forEach keys fun key => noteFile x key) s fun _ t =>
      t = { s with cleanupFiles := s.cleanupFiles ++ keys.filterMap (s.db.fileAt x) } := by
  induction keys generalizing s with
  | nil => exact Sat.pure (by simp)
  | cons key keys ih =>
      rw [forEach_cons]
      refine Sat.bind (fileAt_ensures x key s) fun _ t ht => ?_
      subst ht
      refine Ensures.mono (ih _) fun _ u hu => ?_
      rw [hu]
      cases hfile : s.db.fileAt x key <;> simp [hfile]

/-- All files of an element are deleted. Induction on the properties. -/
theorem deleteFiles_ensures (x : Element) (keys : List String) (s : Handler) :
    Ensures (forEach keys fun key => deleteFile x key) s fun _ t =>
      t = { s with removedFiles := s.removedFiles ++ keys.filterMap (s.db.fileAt x) } := by
  induction keys generalizing s with
  | nil => exact Sat.pure (by simp)
  | cons key keys ih =>
      rw [forEach_cons]
      refine Sat.bind (fileAt_ensures x key s) fun _ t ht => ?_
      subst ht
      refine Ensures.mono (ih _) fun _ u hu => ?_
      rw [hu]
      cases hfile : s.db.fileAt x key <;> simp [hfile]

/-- The element stays, with its files, or it is deleted, and its files are noted. -/
def Handler.NotesFiles (s : Handler) (x : Element) (t : Handler) : Prop :=
  t.resultdeletion = s.resultdeletion ∧ t.removedFiles = s.removedFiles ∧
    (t.db = s.db ∧ t.cleanupFiles = s.cleanupFiles ∨
      s.resultdeletion = true ∧ t.db = s.db.remove x ∧
        t.cleanupFiles = s.cleanupFiles ++ s.db.files x)

/-- Nothing that files depend on has changed. -/
def Handler.SameFiles (s t : Handler) : Prop :=
  t.db = s.db ∧ t.cleanupFiles = s.cleanupFiles ∧ t.removedFiles = s.removedFiles ∧
    t.resultdeletion = s.resultdeletion

omit [Platform] in
/-- What is noted and removed does not depend on the references and the response. -/
theorem sameFiles_indifferent (s : Handler) : Indifferent s.SameFiles :=
  ⟨fun _ _ h => h, fun _ _ _ h => h, fun _ _ _ h => h⟩

/-- Listing an element for deletion notes its files and nothing else. -/
theorem listElement_files (x : Element) (keys : List String) (s : Handler) :
    Ensures (listElement x keys) s fun _ t => s.NotesFiles x t := by
  have hstart : s.SameFiles s := ⟨rfl, rfl, rfl, rfl⟩
  refine Sat.bind ((addRow_footprint x keys).inert (by simp [Kind.Inert])
    (sameFiles_indifferent s) hstart) fun _ t ht => ?_
  obtain ⟨hdb, hcleanup, hremoved, hdel⟩ := ht
  have hlist : ∀ u : Handler, (u.list x).db = u.db ∧ (u.list x).cleanupFiles = u.cleanupFiles ∧
      (u.list x).removedFiles = u.removedFiles ∧
        (u.list x).resultdeletion = u.resultdeletion := fun u => by
    cases x <;> exact ⟨rfl, rfl, rfl, rfl⟩
  refine Sat.bind (P := fun _ u => s.NotesFiles x u) ?_ fun _ u hu => ?_
  · refine Sat.get_bind (Sat.ite (fun hpurge => ?_) fun _ => Sat.modify ?_)
    · refine Sat.modify_bind (Sat.bind (noteFiles_ensures x pathProps _) fun _ u hu => ?_)
      subst hu
      refine Reads.bind (call_reads _) fun _ _ => Sat.modify ?_
      refine ⟨(hlist _).2.2.2.trans hdel, (hlist _).2.2.1.trans hremoved, .inr ⟨?_, ?_, ?_⟩⟩
      · rw [← hdel]
        exact hpurge.1
      · rw [← hdb]
        rfl
      · rw [← hdb, ← hcleanup]
        exact (hlist _).2.1
    · obtain ⟨hldb, hlcleanup, hlremoved, hldel⟩ := hlist t
      exact ⟨hldel.trans hdel, hlremoved.trans hremoved,
        .inl ⟨hldb.trans hdb, hlcleanup.trans hcleanup⟩⟩
  · refine Sat.get_bind (Sat.ite (fun _ => ?_) fun _ => Sat.pure hu)
    refine Reads.bind ((getProperty_readOnly x _).reads u) fun v _ => ?_
    exact Reads.bind ((intValue_readOnly v).reads u) fun _ _ => Sat.modify hu

/-! ### Commands -/

/-- Since the state `s` nodes have been removed, and their files have been noted or
deleted; what is left of the graph has not changed. -/
structure Removing (s t : Handler) : Prop where
  below : t.db.Below s.db
  deletes : t.resultdeletion = s.resultdeletion
  files : ∀ file, t.Filed file ↔ s.Filed file ∨
    ∃ n, s.db.Has n ∧ ¬ t.db.Has n ∧ file ∈ s.db.files (.node n)

/-- Since the state `s` no file has been noted or deleted, and no node removed. -/
def Handler.KeepsNodes (s t : Handler) : Prop :=
  t.cleanupFiles = s.cleanupFiles ∧ t.removedFiles = s.removedFiles ∧
    ∀ n, s.db.Has n → t.db.Has n

/-- What the command notes or deletes are the files of the nodes that it removes. -/
def Handler.FilesFollow (s t : Handler) : Prop :=
  ∀ file, t.Filed file ↔ s.Filed file ∨
    ∃ n, s.db.Has n ∧ ¬ t.db.Has n ∧ file ∈ s.db.files (.node n)

/-- If the nodes are kept, what is noted follows the files of the graph. -/
theorem Handler.KeepsNodes.filesFollow {s t : Handler} (h : s.KeepsNodes t) :
    s.FilesFollow t := by
  obtain ⟨hcleanup, hremoved, hnodes⟩ := h
  intro file
  rw [Handler.Filed]
  rw [hcleanup, hremoved]
  refine ⟨Or.inl, fun h => h.elim id ?_⟩
  rintro ⟨n, hn, hgone, -⟩
  exact absurd (hnodes n hn) hgone

namespace Removing

variable {s t u : Handler}

/-- Nothing is removed at the start. -/
theorem start (s : Handler) : Removing s s where
  below := .refl _
  deletes := rfl
  files file := by
    refine ⟨Or.inl, fun h => h.elim id ?_⟩
    rintro ⟨n, hn, hgone, -⟩
    exact absurd hn hgone

/-- The removal does not depend on the references and the response. -/
theorem indifferent (s : Handler) : Indifferent (Removing s) :=
  ⟨fun _ _ h => ⟨h.below, h.deletes, h.files⟩, fun _ _ _ h => ⟨h.below, h.deletes, h.files⟩,
    fun _ _ _ h => ⟨h.below, h.deletes, h.files⟩⟩

/-- An element goes, and its files are noted or deleted. An edge names none. -/
theorem remove (h : Removing s t) {x : Element} (hx : ∀ e, x = .edge e → s.db.files x = [])
    (hdb : u.db = t.db.remove x) (hdel : u.resultdeletion = t.resultdeletion)
    (hfiles : ∀ file, u.Filed file ↔ t.Filed file ∨ file ∈ t.db.files x) : Removing s u := by
  cases x with
  | edge e =>
      have hbelow : u.db.Below t.db := hdb ▸ Graph.removeEdge_below t.db e
      refine ⟨hbelow.trans h.below, hdel.trans h.deletes, fun file => ?_⟩
      rw [hfiles, h.below.files_edge (hx e rfl), h.files]
      have hhas : ∀ n, u.db.Has n ↔ t.db.Has n := fun n => by rw [hdb]; exact Iff.rfl
      simp only [hhas, List.not_mem_nil, or_false]
  | node n =>
      have hbelow : u.db.Below t.db := hdb ▸ Graph.removeNode_below t.db n
      have hhas : ∀ m, u.db.Has m ↔ t.db.Has m ∧ m ≠ n := fun m => by
        rw [hdb]
        exact Graph.has_removeNode_iff
      refine ⟨hbelow.trans h.below, hdel.trans h.deletes, fun file => ?_⟩
      rw [hfiles, h.files, or_assoc]
      refine or_congr_right ?_
      constructor
      · rintro (⟨m, hm, hgone, hfile⟩ | hfile)
        · exact ⟨m, hm, fun hum => hgone ((hhas m).1 hum).1, hfile⟩
        · have hn : t.db.Has n := by
            by_contra hn
            rw [Graph.files_of_not_has hn] at hfile
            cases hfile
          rw [h.below.files_node hn] at hfile
          exact ⟨n, h.below.has hn, fun hun => ((hhas n).1 hun).2 rfl, hfile⟩
      · rintro ⟨m, hm, hgone, hfile⟩
        by_cases htm : t.db.Has m
        · have hmn : m = n := by
            by_contra hne
            exact hgone ((hhas m).2 ⟨htm, hne⟩)
          subst hmn
          exact .inr (by rwa [h.below.files_node htm])
        · exact .inl ⟨m, hm, htm, hfile⟩

/-- **Listed elements.** -/
theorem listKeeps {x : Element}
    (hx : s.resultdeletion = true → ∀ e, x = .edge e → s.db.files x = []) :
    ListKeeps (Removing s) x := by
  intro keys t h
  refine Ensures.mono (listElement_files x keys t) fun _ u hu => ?_
  obtain ⟨hdel, hremoved, ⟨hdb, hcleanup⟩ | ⟨hdeletes, hdb, hcleanup⟩⟩ := hu
  · refine ⟨hdb ▸ h.below, hdel.trans h.deletes, fun file => ?_⟩
    have hfiles := h.files file
    rw [Handler.Filed] at hfiles ⊢
    rwa [hremoved, hcleanup, hdb]
  · refine h.remove (hx (h.deletes ▸ hdeletes)) hdb hdel fun file => ?_
    unfold Handler.Filed
    rw [hremoved, hcleanup, List.mem_append]
    tauto

end Removing

section KeepsNodes

omit [Platform]

variable {s t : Handler}

/-- That the nodes are kept does not depend on the references and the response. -/
theorem keepsNodes_indifferent (s : Handler) : Indifferent s.KeepsNodes :=
  ⟨fun _ _ h => h, fun _ _ _ h => h, fun _ _ _ h => h⟩

/-- That the nodes are kept does not depend on the edges. -/
theorem keepsNodes_ignoresEdges (s : Handler) : IgnoresEdges s.KeepsNodes :=
  ⟨fun _ _ _ _ h => h, fun _ _ _ h => h⟩

/-- An update of a node keeps the nodes. -/
theorem keepsNodes_update (s : Handler) (n : NodeID) : UpdateKeeps s.KeepsNodes (.node n) :=
  fun _ f h => ⟨h.1, h.2.1, fun m hm => (Graph.has_modifyProps_iff (.node n) f).2 (h.2.2 m hm)⟩

/-- An addition keeps the nodes. -/
theorem Handler.KeepsNodes.addNode (h : s.KeepsNodes t) (tag : StringID) :
    s.KeepsNodes (t.setDb (t.db.addNode tag)) :=
  ⟨h.1, h.2.1, fun m hm => (Graph.has_addNode_iff tag).2 (.inl (h.2.2 m hm))⟩

end KeepsNodes

/-- **Expiry.** Induction on the queue. -/
theorem deleteExpiredFrom_files (now : ℕ) (queue : List AutoDeleteNode) {s t : Handler}
    (hedges : ∀ e, s.db.files (.edge e) = []) (h : Removing s t) :
    Ensures (deleteExpiredFrom now queue) t fun _ u => Removing s u := by
  induction queue generalizing t with
  | nil => exact Sat.pure h
  | cons a as ih =>
      refine Sat.ite (fun _ => ?_) fun _ => Sat.pure h
      refine Sat.bind (deleteFiles_ensures a.node pathProps t) fun _ u hu => ?_
      subst hu
      refine Reads.bind (call_reads _) fun _ _ => Sat.modify_bind (ih ?_)
      refine h.remove (fun e he => he ▸ hedges e) rfl rfl fun file => ?_
      have hmem : file ∈ t.removedFiles ++ t.db.files a.node ↔
          file ∈ t.removedFiles ∨ file ∈ t.db.files a.node := List.mem_append
      unfold Handler.Filed
      rw [or_assoc, ← hmem]
      exact Iff.rfl

/-- No edge names a file, if the command may delete an edge. -/
def Command.NoEdgeFiles (cmd : Command) (u : Handler) : Prop :=
  u.resultdeletion = true ∨ cmd.cmdId = .deleteExpired → ∀ e, u.db.files (.edge e) = []

/-- **Commands.** What a command notes or deletes are the files of the nodes that it
removes. -/
theorem dispatch_files {cmd : Command} {s : Handler} (htx : cmd.cmdId.isTx = false)
    (hlists : cmd.ListsOnlyAsQuery) (hedges : cmd.NoEdgeFiles s) :
    Ensures (dispatch cmd) (s.begin cmd) fun _ t => s.FilesFollow t := by
  have hremoving : Removing s (s.begin cmd) := ⟨.refl _, rfl, (Removing.start s).files⟩
  have hkeeps : s.KeepsNodes (s.begin cmd) := ⟨rfl, rfl, fun _ hn => hn⟩
  have hfollow : ∀ {m : Handling ℤ}, Ensures m (s.begin cmd) (fun _ t => Removing s t) →
      Ensures m (s.begin cmd) fun _ t => s.FilesFollow t :=
    fun hm => Ensures.mono hm fun _ _ ht => ht.files
  have hstay : ∀ {m : Handling ℤ}, Ensures m (s.begin cmd) (fun _ t => s.KeepsNodes t) →
      Ensures m (s.begin cmd) fun _ t => s.FilesFollow t :=
    fun hm => Ensures.mono hm fun _ _ ht => ht.filesFollow
  have hnever : ∀ {type : ResponseType} {Q : Prop}, type ≠ .list → type = .list → Q :=
    fun hne heq => absurd heq hne
  rw [Command.NoEdgeFiles] at hedges
  rw [dispatch]
  cases hid : cmd.cmdId
  all_goals rw [hid] at hedges htx
  case txBegin | txCommit | txAbort => cases htx
  case queryNode =>
    refine hfollow (queryNode_invariant (Removing.indifferent s) (fun _ n => ?_) hremoving)
    exact Removing.listKeeps fun _ e he => by cases he
  case queryEdge =>
    refine hfollow (queryEdge_invariant (Removing.indifferent s) (fun _ e => ?_) hremoving)
    exact Removing.listKeeps fun hdel e' he => he ▸ hedges (.inl hdel) e'
  case addEdge =>
    exact hstay (addEdge_invariant _ (keepsNodes_indifferent s) (keepsNodes_ignoresEdges s) hkeeps)
  case updateEdge =>
    refine hstay (Sat.bind (updateEdge_invariant (keepsNodes_indifferent s)
      (keepsNodes_ignoresEdges s) (fun qe hqe => hnever (hlists.updateEdge qe hqe)) hkeeps)
      fun _ _ ht => Sat.pure ht)
  case addNode =>
    refine hstay (addNode_invariant (keepsNodes_indifferent s)
      (fun qn hqn => hnever (hlists.addNode qn hqn)) (fun t ht => ?_) hkeeps)
    exact addNewNode_keeps _ (keepsNodes_indifferent s) (fun _ tag hu => hu.addNode tag)
      (keepsNodes_update s) (fun _ _ hu => hu) ht
  case updateNode =>
    refine hstay (Sat.bind (updateNode_invariant (keepsNodes_indifferent s)
      (fun qn hqn => hnever (hlists.updateNode qn hqn)) (fun n t ht => ?_) hkeeps)
      fun _ _ ht => Sat.pure ht)
    exact updateElement_keeps _ _ (keepsNodes_update s n) ht
  case deleteExpired =>
    exact hfollow (Sat.get_bind (Sat.bind (deleteExpiredFrom_files _ _ (hedges (.inr rfl))
      hremoving) fun _ _ ht => Sat.pure ht))

/-! ### Commands that spare the files -/

section Spares

variable {K : List Kind} {cmd : Command} {cmds : List Command} {s t u : Handler}

/-- No file has been noted or deleted. -/
def Handler.LeavesFiles (s t : Handler) : Prop :=
  t.cleanupFiles = s.cleanupFiles ∧ t.removedFiles = s.removedFiles

omit [Platform] in
/-- What leaves the files alone, twice, leaves them alone. -/
theorem Handler.LeavesFiles.trans (h : s.LeavesFiles t) (h' : t.LeavesFiles u) :
    s.LeavesFiles u :=
  ⟨h'.1.trans h.1, h'.2.trans h.2⟩

/-- Started in the state, the command lists no elements that are to be deleted while an
element of the graph names a file, and lets no element expire that names one. -/
structure Command.LeavesFiles (cmd : Command) (s : Handler) : Prop where
  lists : cmd.Lists → s.resultdeletion = false ∨ ∀ x, s.db.files x = []
  expires : cmd.cmdId = .deleteExpired →
    ∀ a ∈ s.expirationQueue.takeWhile fun a => a.timestamp < s.now, s.db.files a.node = []

/-- Started in the state, the command fails at once or leaves the files alone. -/
def Command.SparesFiles (cmd : Command) (s : Handler) : Prop :=
  cmd.Refused s ∨ cmd.LeavesFiles s

/-- An element without files has none under any of the keys of paths. -/
theorem Graph.fileAt_of_files {g : Graph} {x : Element} {key : String} (h : g.files x = [])
    (hkey : key ∈ pathProps) : g.fileAt x key = none :=
  List.filterMap_eq_nil_iff.1 h key hkey

/-- What names no file names none after an element has been removed. -/
theorem Graph.files_remove {g : Graph} {x : Element} (y : Element) (h : g.files x = []) :
    (g.remove y).files x = [] := by
  have hbelow : (g.remove y).Below g := by
    cases y with
    | node n => exact Graph.removeNode_below g n
    | edge e => exact Graph.removeEdge_below g e
  cases x with
  | edge e => exact hbelow.files_edge h
  | node n =>
      by_cases hn : (g.remove y).Has n
      · rwa [hbelow.files_node hn]
      · exact Graph.files_of_not_has hn

/-- Steps that expire nothing leave the files alone, unless they delete listed elements that
name some. -/
theorem Does.leavesFiles (h : Does K s t) (hexpire : .expire ∉ K)
    (hlists : .queue ∈ K → s.resultdeletion = false ∨
      (.add ∉ K ∧ .update ∉ K ∧ ∀ x, s.db.files x = [])) : s.LeavesFiles t := by
  let Same (u : Handler) : Prop := s.LeavesFiles u ∧ u.resultdeletion = s.resultdeletion ∧
    (.add ∉ K → .update ∉ K → (∀ x, s.db.files x = []) → ∀ x, u.db.files x = [])
  refine (h.invariant (P := Same) ⟨⟨rfl, rfl⟩, rfl, fun _ _ hnone => hnone⟩
    fun {κ u v} hκ he hu => ?_).1
  obtain ⟨hsame, hdel, hnone⟩ := hu
  have hdel' : v.resultdeletion = s.resultdeletion := he.fixed.2.1.trans hdel
  cases he with
  | removeFile | expire => exact absurd hκ hexpire
  | addNode | addEdge => exact ⟨hsame, hdel', fun hadd => absurd hκ hadd⟩
  | update => exact ⟨hsame, hdel', fun _ hupdate => absurd hκ hupdate⟩
  | @noteFile _ x key file hx hkey hfile =>
      -- The element is deleted, so that no element names a file.
      exfalso
      obtain ⟨hadd, hupdate, hfiles⟩ := (hlists hκ).resolve_left (by simp [← hdel, hx.1])
      have hat := Graph.fileAt_of_files (hnone hadd hupdate hfiles x) hkey
      simp [Graph.fileAt, hfile] at hat
  | @list _ x _ =>
      obtain ⟨l, hl⟩ := list_eq u x
      rw [hl]
      exact ⟨hsame, hdel, hnone⟩
  | @purge _ x _ =>
      obtain ⟨l, hl⟩ := list_eq u x
      rw [hl] at hdel' ⊢
      refine ⟨hsame, hdel', fun hadd hupdate hfiles y => ?_⟩
      exact Graph.files_remove x (hnone hadd hupdate hfiles y)
  | _ => exact ⟨hsame, hdel', hnone⟩

/-- An element that names no file. -/
theorem deleteFiles_none {x : Element} (h : s.db.files x = []) :
    Sat (forEach pathProps fun key => deleteFile x key) s (fun _ t => t = s) fun _ t => t = s := by
  refine Sat.forEach (I := fun t => t = s) (fun key hkey t ht => ?_) rfl
  subst ht
  have hat := Graph.fileAt_of_files h hkey
  refine Sat.get_bind ?_
  change Sat (match t.db.props x (stringID key) with
    | some v => do
        let file ← v.stringValue
        modify fun s => { s with removedFiles := s.removedFiles ++ [file] }
    | none => pure ()) t _ _
  rw [Graph.fileAt] at hat
  cases hv : t.db.props x (stringID key) with
  | none => exact Sat.pure rfl
  | some v =>
      cases v with
      | string file => simp [hv] at hat
      | _ => exact Sat.throw rfl

/-- **Expiry** of elements that name no file. Induction on the queue. -/
theorem deleteExpiredFrom_none (now : ℕ) (queue : List AutoDeleteNode)
    (h : ∀ a ∈ queue.takeWhile fun a => a.timestamp < now, s.db.files a.node = []) :
    Sat (deleteExpiredFrom now queue) s (fun _ => s.LeavesFiles) fun _ => s.LeavesFiles := by
  induction queue generalizing s with
  | nil => exact Sat.pure ⟨rfl, rfl⟩
  | cons a as ih =>
      refine Sat.ite (fun hdue => ?_) fun _ => Sat.pure ⟨rfl, rfl⟩
      rw [List.takeWhile_cons_of_pos (by simpa using hdue)] at h
      have hfiles := deleteFiles_none (h a (List.mem_cons_self ..))
      refine Sat.bind (Sat.mono hfiles (fun _ _ ht => ht) ?_) fun _ t ht => ?_
      · rintro _ t rfl
        exact ⟨rfl, rfl⟩
      · subst ht
        have hcall : Sat (call (.remove a.node)) t (fun _ u => u = t) fun _ u => u = t :=
          Sat.mono (call_readOnly _ t) (fun _ _ hu => hu.eq) fun _ _ hu => hu.eq
        refine Sat.bind (Sat.mono hcall (fun _ _ hu => hu) ?_) fun _ u hu => ?_
        · rintro _ u rfl
          exact ⟨rfl, rfl⟩
        · subst hu
          refine Sat.modify_bind (ih fun b hb => ?_)
          exact Graph.files_remove _ (h b (List.mem_cons_of_mem _ hb))

/-- **Commands** that spare the files leave them as they are, whether they return or raise an
exception. -/
theorem dispatch_leavesFiles (htx : cmd.cmdId.isTx = false) (hlists : cmd.ListsOnlyAsQuery)
    (hcmd : cmd.SparesFiles s) :
    Sat (dispatch cmd) (s.begin cmd) (fun _ => s.LeavesFiles) fun _ => s.LeavesFiles := by
  have hbegin : s.LeavesFiles (s.begin cmd) := ⟨rfl, rfl⟩
  have hdoes : ∀ {K : List Kind}, FootprintAt K (dispatch cmd) (s.begin cmd) → .expire ∉ K →
      (.queue ∈ K → s.resultdeletion = false ∨
        (.add ∉ K ∧ .update ∉ K ∧ ∀ x, s.db.files x = [])) →
      Sat (dispatch cmd) (s.begin cmd) (fun _ => s.LeavesFiles) fun _ => s.LeavesFiles := by
    intro K hK hexpire hlists
    exact Sat.mono hK (fun _ _ ht => hbegin.trans (ht.leavesFiles hexpire hlists))
      fun _ _ ht => hbegin.trans (ht.leavesFiles hexpire hlists)
  rcases hcmd with hrefused | hcmd
  · exact hdoes (dispatch_refused hrefused) (by simp) (by simp)
  · by_cases hid : cmd.cmdId = .deleteExpired
    · have hnone := hcmd.expires hid
      rw [dispatch]
      rw [hid]
      refine Sat.get_bind (Sat.bind (deleteExpiredFrom_none _ _ hnone) fun _ _ ht => Sat.pure ht)
    · refine hdoes (dispatch_typed htx) (fun hmem => ?_) fun hmem => ?_
      · obtain ⟨hne, -⟩ | ⟨-, hexpires⟩ := Command.enters_of_mem hmem (by simp)
        · cases hne
        · exact hid hexpires
      · have hlisting : cmd.Lists := Command.lists_of_mem hmem (by simp)
        refine (hcmd.lists hlisting).imp_right fun hfiles => ?_
        -- Only a query has a list, and a query neither adds nor updates.
        rw [Command.Lists] at hlisting
        rw [Command.kinds]
        cases hcid : cmd.cmdId
        all_goals simp only [hcid] at hlisting ⊢
        case queryNode =>
          simp [QueryNode.kinds, ResponseType.found, hlisting, ResponseType.kinds, hfiles]
        case queryEdge =>
          simp [QueryEdge.kinds, ResponseType.found, hlisting, ResponseType.kinds, hfiles]
        case addNode =>
          obtain ⟨qn, hqn, hlist⟩ := hlisting
          exact absurd hlist (hlists.addNode qn hqn)
        case updateNode =>
          obtain ⟨qn, hqn, hlist⟩ := hlisting
          exact absurd hlist (hlists.updateNode qn hqn)
        case updateEdge =>
          obtain ⟨qe, hqe, hlist⟩ := hlisting
          exact absurd hlist (hlists.updateEdge qe hqe)

/-- The same for a whole command, also if it fails. -/
theorem processQuery_leavesFiles {v : ℤ} (hlists : cmd.ListsOnlyAsQuery)
    (hcmd : cmd.SparesFiles s) (h : Runs (processQuery cmd) s (.ret v t)) : s.LeavesFiles t := by
  have hdispatch : Sat (dispatch cmd) (s.begin cmd) (fun _ => s.LeavesFiles)
      fun _ => s.LeavesFiles := by
    by_cases htx : cmd.cmdId.isTx = true
    · refine Sat.mono (dispatch_tx htx) ?_ ?_
      · rintro _ t ⟨tx, r, rfl⟩
        exact ⟨rfl, rfl⟩
      · rintro _ t ⟨tx, r, rfl⟩
        exact ⟨rfl, rfl⟩
    · exact dispatch_leavesFiles (Bool.eq_false_iff.2 htx) hlists hcmd
  exact (processQuery_sat (Q := fun _ => s.LeavesFiles) hdispatch fun _ _ ht => ht).ret h

end Spares

/-! ### Transactions -/

/-- A command of the transaction removes a node that names the file. -/
def Progress.RemovesFile (p : Progress) (file : String) : Prop :=
  ∃ cmd rest u v w, Progress.Reaches p ⟨cmd :: rest, u⟩ ∧ Runs (processQuery cmd) u (.ret v w) ∧
    ∃ n, u.db.Has n ∧ ¬ w.db.Has n ∧ file ∈ u.db.files (.node n)

/-- The command that comes next, and those after it. -/
theorem Progress.removesFile_cons {cmd : Command} {cmds : List Command} {s t : Handler} {v : ℤ}
    {file : String} (hrun : Runs (processQuery cmd) s (.ret v t)) (hv : 0 ≤ v) :
    Progress.RemovesFile ⟨cmd :: cmds, s⟩ file ↔
      (∃ n, s.db.Has n ∧ ¬ t.db.Has n ∧ file ∈ s.db.files (.node n)) ∨
        Progress.RemovesFile ⟨cmds, t.advance⟩ file := by
  constructor
  · rintro ⟨cmd', rest, u, v', w, hreach, hrun', hremoves⟩
    rcases ReflTransGen.cases_head hreach with heq | ⟨p, hstep, hreach⟩
    · cases heq
      injection Runs.unique hrun hrun' with _ hsame
      subst hsame
      exact .inl hremoves
    · cases hstep with
      | intro hfirst _ =>
          injection Runs.unique hrun hfirst with _ hsame
          subst hsame
          exact .inr ⟨cmd', rest, u, v', w, hreach, hrun', hremoves⟩
  · rintro (hremoves | ⟨cmd', rest, u, v', w, hreach, hrun', hremoves⟩)
    · exact ⟨cmd, cmds, s, v, t, .refl, hrun, hremoves⟩
    · exact ⟨cmd', rest, u, v', w, .head (.intro hrun hv) hreach, hrun', hremoves⟩

/-- What the loop over the commands notes and deletes. Induction on the way to its end. -/
theorem Progress.Reaches.files {cmds : List Command} {s u : Handler}
    (hstep : EachCommand (fun cmd v => ∀ n w, Runs (processQuery cmd) v (.ret n w) → 0 ≤ n →
      v.FilesFollow w) cmds s)
    (h : Progress.Reaches ⟨cmds, s⟩ ⟨[], u⟩) (file : String) :
    u.Filed file ↔ s.Filed file ∨ Progress.RemovesFile ⟨cmds, s⟩ file := by
  induction cmds generalizing s with
  | nil =>
      have hend : ∀ {p}, Progress.Reaches ⟨[], s⟩ p → p = ⟨[], s⟩ := fun hp => by
        rcases ReflTransGen.cases_head hp with heq | ⟨p', hlast, -⟩
        · exact heq.symm
        · cases hlast
      obtain rfl : u = s := congrArg Progress.handler (hend h)
      refine ⟨Or.inl, fun h => h.elim id ?_⟩
      rintro ⟨cmd, rest, u, v, w, hreach, -⟩
      cases hend hreach
  | cons cmd cmds ih =>
      obtain ⟨hhead, htail⟩ := eachCommand_cons.1 hstep
      rcases ReflTransGen.cases_head h with heq | ⟨p, hfirst, hrest⟩
      · cases heq
      · cases hfirst with
        | intro hrun hv =>
            rw [ih (htail _ _ hrun hv) hrest, Progress.removesFile_cons hrun hv, ← or_assoc]
            exact or_congr_left (hhead _ _ hrun hv file)

/-- The transaction is one that `PMGDQuery` sends, and it deletes no edge that names a
file. If one of its commands fails, it and those before it spare the files. -/
structure Request.KeepsFiles (r : Request) (s : Handler) : Prop where
  transaction : IsTransaction r.cmds
  lists : ∀ cmd ∈ r.cmds, cmd.ListsOnlyAsQuery
  edges : EachCommand Command.NoEdgeFiles r.cmds (r.opens s)
  rolledBack : r.Fails s → EachCommand Command.SparesFiles r.cmds (r.opens s)

/-- A transaction that is rolled back has neither noted nor deleted a file. -/
theorem Request.KeepsFiles.leavesFiles {r : Request} {s w t : Handler} {rs : Responses}
    (hr : r.KeepsFiles s) (hback : RollsBack r s w t rs) : s.LeavesFiles w := by
  obtain ⟨cmd, rest, u, v, hreach, hfail, hv⟩ := hback.fails
  have hspare := hr.rolledBack ⟨cmd, rest, u, v, w, hreach, hfail, hv⟩
  have hmem : ∀ {cmd rest u}, Progress.Reaches ⟨r.cmds, r.opens s⟩ ⟨cmd :: rest, u⟩ →
      cmd ∈ r.cmds := fun hreach => by
    obtain ⟨-, hdrop⟩ := hreach.cmds_eq
    exact List.mem_of_mem_drop (hdrop ▸ List.mem_cons_self ..)
  have hboth : EachCommand (fun cmd u => cmd.ListsOnlyAsQuery ∧ cmd.SparesFiles u) r.cmds
      (r.opens s) := fun cmd rest u hreach =>
    ⟨hr.lists cmd (hmem hreach), hspare cmd rest u hreach⟩
  have hu : (r.opens s).LeavesFiles u := by
    refine Progress.Reaches.invariant (I := (r.opens s).LeavesFiles)
      (fun hv hcmd hrun _ => ?_) hboth ⟨rfl, rfl⟩ hreach
    have hsame := hv.trans (processQuery_leavesFiles hcmd.1 hcmd.2 hrun)
    exact ⟨hsame.1, hsame.2⟩
  obtain ⟨hlists, hcmd⟩ := hboth cmd rest u hreach
  have hw := hu.trans (processQuery_leavesFiles hlists hcmd hfail)
  exact ⟨hw.1, hw.2⟩

/-- The files of the nodes that the transaction has removed, if it was committed. -/
def Request.removed (r : Request) (s t : Handler) : Set String :=
  {file | (∃ u, Commits r s u t) ∧ Progress.RemovesFile ⟨r.cmds, r.opens s⟩ file}

omit [Platform] in
/-- Closing a transaction leaves the names of files as they are. -/
theorem Handler.closed_files (s : Handler) :
    s.closed.cleanupFiles = s.cleanupFiles ∧ s.closed.removedFiles = s.removedFiles := by
  rw [Handler.closed, Handler.endTransaction]
  cases s.tx <;> exact ⟨rfl, rfl⟩

/-- **Transactions.** What a transaction notes or deletes are the files of the nodes that it
removes, if it is committed. -/
theorem process_files {r : Request} {s t : Handler} {rs : Responses} (hr : r.KeepsFiles s)
    (hrun : Runs r.process s (.ret rs t)) (file : String) :
    t.Filed file ↔ s.Filed file ∨ file ∈ r.removed s t := by
  rcases process_outcome hr.transaction hrun with ⟨u, hcommit⟩ | ⟨w, hback⟩
  · have hsteps : EachCommand (fun cmd v => ∀ n w, Runs (processQuery cmd) v (.ret n w) → 0 ≤ n →
        v.FilesFollow w) r.cmds (r.opens s) := by
      intro cmd rest v hreach n w hquery hn
      rcases processQuery_inv hquery with hdispatch | ⟨rfl, -⟩
      · by_cases htx : cmd.cmdId.isTx = true
        · obtain ⟨tx, resp, rfl⟩ := Sat.ret (dispatch_tx htx) hdispatch
          exact Handler.KeepsNodes.filesFollow ⟨rfl, rfl, fun _ hn => hn⟩
        · obtain ⟨-, hdrop⟩ := hreach.cmds_eq
          have hmem : cmd ∈ r.cmds := List.mem_of_mem_drop (hdrop ▸ List.mem_cons_self ..)
          have hfollow := Sat.ret (dispatch_files (Bool.eq_false_iff.2 htx) (hr.lists cmd hmem)
            (hr.edges cmd rest v hreach)) hdispatch
          exact hfollow
      · omega
    obtain ⟨hcleanup, hremoved⟩ := u.closed_files
    have hfiles := hcommit.reaches.files hsteps file
    have hsame : t.Filed file ↔ u.Filed file := by
      unfold Handler.Filed
      rw [hcommit.ends, hcleanup, hremoved]
    rw [hsame, hfiles]
    exact or_congr_right ⟨fun h => ⟨⟨u, hcommit⟩, h⟩, fun h => h.2⟩
  · obtain ⟨hcleanup, hremoved⟩ := hr.leavesFiles hback
    have hsame : t.Filed file ↔ s.Filed file := by
      unfold Handler.Filed
      rw [hback.ends, (Handler.closed_files _).1, (Handler.closed_files _).2, ← hcleanup,
        ← hremoved]
    rw [hsame]
    refine ⟨Or.inl, fun h => h.elim id ?_⟩
    rintro ⟨⟨u', hcommit⟩, -⟩
    exact absurd hback hcommit.not_rollsBack

/-! ### The server -/

/-- What the handlers of the server share, and what has happened so far. -/
structure Server where
  handler : Handler
  /-- The files of the nodes that committed transactions have removed. -/
  gone : Set String := ∅
  /-- A transaction was committed after the last clean-up. -/
  owing : Prop := False
  /-- The entries of the list that clean-ups have gone over, by their positions. -/
  processed : List ℕ := []
  /-- How many clean-ups have gone over a list that was not empty. -/
  sweeps : ℕ := 0

/-- Between two steps, by the same handler or another, nothing happens to the graph, the
queue and the files. -/
def Handler.SharesFiles (s t : Handler) : Prop :=
  s.SharesQueue t ∧ t.cleanupFiles = s.cleanupFiles ∧ t.removedFiles = s.removedFiles

/-- The server after a transaction. -/
def Server.transacted (S : Server) (r : Request) (s t : Handler) : Server :=
  { S with handler := t, gone := S.gone ∪ r.removed s t, owing := S.owing ∨ ∃ u, Commits r s u t }

/-- The server after a clean-up of the list of files, which notes what the loop went over. -/
def Server.swept (S : Server) (pathVideos : String) (names : List String) (t : Handler) : Server :=
  { S with
    handler := t, owing := False
    processed := S.processed ++ (cleanupFrom pathVideos 0 {} names).processed
    sweeps := if names = [] then S.sweeps else S.sweeps + 1 }

/-- The steps of the server: a transaction of any client that meets the condition `P`, or
the clean-up after a request of any client, over a list that meets the condition `Q`. -/
inductive Server.Step (pathVideos : String) (P : Request → Handler → Prop)
    (Q : List String → Prop) : Server → Server → Prop
  | transaction {S : Server} {r : Request} {s t : Handler} {rs : Responses} :
      S.handler.SharesFiles s → P r s → Runs r.process s (.ret rs t) →
      Step pathVideos P Q S (S.transacted r s t)
  | cleanup {S : Server} {s t : Handler} : S.handler.SharesFiles s → Q s.cleanupFiles →
      Runs (cleanupFiles pathVideos) s (.ret () t) →
      Step pathVideos P Q S (S.swept pathVideos s.cleanupFiles t)

/-- The files that are listed or deleted are those of the nodes that committed transactions
have removed, and after a clean-up all of these are deleted. -/
structure Server.Follows (S : Server) : Prop where
  deleted : ∀ file ∈ S.handler.removedFiles, file ∈ S.gone
  listed : ∀ file ∈ S.handler.cleanupFiles, file ∈ S.gone
  settled : ¬ S.owing → ∀ file ∈ S.gone, file ∈ S.handler.removedFiles

/-- All files of the list lie under the path of the videos. -/
def AllVideos (pathVideos : String) (names : List String) : Prop :=
  ∀ name ∈ names, pathVideos.toList <:+: name.toList

/-- The positions that have been gone over, counted in clean-ups: none, once, or some twice. -/
def Counted (sweeps : ℕ) (processed : List ℕ) : Prop :=
  sweeps = 0 ∧ processed = [] ∨ sweeps = 1 ∧ processed.Nodup ∧ 0 ∈ processed ∨
    2 ≤ sweeps ∧ 0 ∈ processed ∧ ¬ processed.Nodup

omit [Platform] in
/-- One more sweep counts each of its names once more. -/
theorem Counted.sweep {sweeps : ℕ} {processed : List ℕ} (h : Counted sweeps processed) (k : ℕ) :
    Counted (sweeps + 1) (processed ++ List.range (k + 1)) := by
  have hzero : 0 ∈ List.range (k + 1) := List.mem_range.2 (by omega)
  have htwice : 0 ∈ processed → ¬ (processed ++ List.range (k + 1)).Nodup := fun hmem hnodup =>
    List.disjoint_of_nodup_append hnodup hmem hzero
  rcases h with ⟨rfl, rfl⟩ | ⟨rfl, -, hmem⟩ | ⟨hle, hmem, -⟩
  · exact .inr (.inl ⟨rfl, List.nodup_range, hzero⟩)
  · exact .inr (.inr ⟨by omega, List.mem_append_left _ hmem, htwice hmem⟩)
  · exact .inr (.inr ⟨by omega, List.mem_append_left _ hmem, htwice hmem⟩)

omit [Platform] in
/-- No name has been processed twice exactly if there has been one sweep at most. -/
theorem Counted.nodup_iff {sweeps : ℕ} {processed : List ℕ} (h : Counted sweeps processed) :
    processed.Nodup ↔ sweeps ≤ 1 := by
  rcases h with ⟨rfl, rfl⟩ | ⟨rfl, hnodup, -⟩ | ⟨hle, -, htwice⟩
  · simp
  · exact ⟨fun _ => le_rfl, fun _ => hnodup⟩
  · exact ⟨fun hnodup => absurd hnodup htwice, fun hle' => by omega⟩

/-- What every step keeps: the files that are listed or deleted are those of the nodes that
are gone, and the clean-ups have gone over the list as often as they count. -/
structure Server.Kept (S : Server) : Prop where
  filed : ∀ file, S.handler.Filed file ↔ file ∈ S.gone
  settled : ¬ S.owing → ∀ file ∈ S.handler.cleanupFiles, file ∈ S.handler.removedFiles
  counted : Counted S.sweeps S.processed

/-- One step of the server, under the condition on its request, keeps the invariant. -/
theorem Server.Step.kept {pathVideos : String} {S S' : Server}
    (h : Step pathVideos Request.KeepsFiles (AllVideos pathVideos) S S') (hS : S.Kept) :
    S'.Kept := by
  cases h with
  | @transaction r s t rs hshares hr hrun =>
      obtain ⟨-, hcleanup, hremoved⟩ := hshares
      have hfiles := process_files hr hrun
      have hsame : ∀ file, s.Filed file ↔ S.handler.Filed file := fun file => by
        unfold Handler.Filed
        rw [hcleanup, hremoved]
      refine ⟨fun file => ?_, fun howing => ?_, hS.counted⟩
      · exact (hfiles file).trans (or_congr_left ((hsame file).trans (hS.filed file)))
      · -- The transaction was not committed: it has noted nothing.
        intro file hfile
        obtain ⟨hsettled, hnot⟩ := not_or.1 howing
        have hback := (process_outcome hr.transaction hrun).resolve_left hnot
        obtain ⟨w, hback⟩ := hback
        obtain ⟨hwcleanup, hwremoved⟩ := hr.leavesFiles hback
        have hend : t.cleanupFiles = S.handler.cleanupFiles ∧
            t.removedFiles = S.handler.removedFiles := by
          rw [hback.ends, (Handler.closed_files _).1, (Handler.closed_files _).2, ← hcleanup,
            ← hremoved, ← hwcleanup, ← hwremoved]
          exact ⟨rfl, rfl⟩
        have hold : file ∈ S.handler.cleanupFiles := hend.1 ▸ hfile
        have hgone := hS.settled hsettled file hold
        rw [← hend.2] at hgone
        exact hgone
  | @cleanup s t hshares hvideos hrun =>
      obtain ⟨-, hcleanup, hremoved⟩ := hshares
      have hrun := Runs.unique (Runs.of_eq fun _ => rfl) hrun
      injection hrun with _ ht
      subst ht
      have hall : cleanupPmgdFiles pathVideos s.cleanupFiles = s.cleanupFiles := by
        rw [cleanupPmgdFiles_eq]
        exact List.filter_eq_self.2 fun name hname => by simpa using hvideos name hname
      refine ⟨fun file => ?_, fun _ file hfile => ?_, ?_⟩
      · rw [show (S.swept _ _ _).gone = S.gone from rfl, ← hS.filed]
        change file ∈ s.cleanupFiles ∨ file ∈ s.removedFiles ++ _ ↔ _
        unfold Handler.Filed
        rw [hall, List.mem_append, hcleanup, hremoved]
        tauto
      · change file ∈ s.removedFiles ++ _
        rw [hall]
        exact List.mem_append_right _ hfile
      · have hcounted := hS.counted
        change Counted (if s.cleanupFiles = [] then S.sweeps else S.sweeps + 1)
          (S.processed ++ (cleanupFrom pathVideos 0 {} s.cleanupFiles).processed)
        rw [cleanupFrom_eq, List.nil_append, ← List.range_eq_range']
        cases s.cleanupFiles with
        | nil => simpa using hcounted
        | cons file files => exact hcounted.sweep files.length

end

/-- The properties of a video. -/
def videoProps : Props := fun key =>
  if key = Platform.stringID "VD:videoPath" then some (.string "db/videos/a.mp4") else none

/-- A handler over a graph with one node, a video. -/
def onVideo : Handler := { db := ⟨[some ⟨Platform.stringID "A", videoProps⟩], []⟩ }

/-- A transaction that lists the nodes with the tag `A`, and purges them if it deletes its
results. If it is to fail, an edge between references that are not there follows. -/
def listVideos (deletes fails : Bool) : Request where
  cmds := { cmdId := .txBegin } :: (listNodes "A" 0 ::
    (if fails then [{ cmdId := .addEdge }] else []) ++ [{ cmdId := .txCommit }])
  numGroups := 1
  readonly := false
  resultdeletion := deletes

/-- The commands of the request list only as queries. -/
theorem listVideos_lists (deletes fails : Bool) :
    ∀ cmd ∈ (listVideos deletes fails).cmds, cmd.ListsOnlyAsQuery := by
  intro cmd hcmd
  have hcmd : cmd = { cmdId := .txBegin } ∨ cmd = listNodes "A" 0 ∨
      cmd = { cmdId := .addEdge } ∨ cmd = { cmdId := .txCommit } := by
    cases fails
    · have hcases : cmd = { cmdId := .txBegin } ∨ cmd = listNodes "A" 0 ∨
          cmd = { cmdId := .txCommit } := by simpa [listVideos] using hcmd
      tauto
    · simpa [listVideos] using hcmd
  rcases hcmd with rfl | rfl | rfl | rfl
  all_goals exact ⟨fun _ h => (by cases h), fun _ h => (by cases h), fun _ h => (by cases h)⟩

end Vdms
