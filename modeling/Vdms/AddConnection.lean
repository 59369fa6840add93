import Vdms.LinkedSearch
import Vdms.Updates

/-!
# Adding Edges between Two References

`add_edge` runs two nested loops through two cached references and resets the inner one
after each pass. If the references are different, the loops go over all pairs. If they
are one and the same, the inner reset takes the outer loop back to the first node: with
two nodes or more the outer loop never gets past the second, and edges are added forever.

## Main results

* `addEdge_runs`: for two different references `add_edge` adds one edge for each pair.
* `addEdge_diverges`: for one reference to several nodes it never ends.
* `add_edge_iff`: exactly when `add_edge` is a cross product.
-/

namespace Vdms

open Imp Imp.Prog Platform Relation

/-- The graph with further edges. -/
def Graph.withEdges (g : Graph) (eds : List Edge) : Graph :=
  { g with edges := g.edges ++ eds.map some }

namespace Graph

@[simp] theorem withEdges_nil (g : Graph) : g.withEdges [] = g := by simp [withEdges]

@[simp] theorem withEdges_nodes (g : Graph) (eds : List Edge) :
    (g.withEdges eds).nodes = g.nodes := rfl

theorem withEdges_withEdges (g : Graph) (eds eds' : List Edge) :
    (g.withEdges eds).withEdges eds' = g.withEdges (eds ++ eds') := by
  simp [withEdges]

theorem withEdges_length (g : Graph) (eds : List Edge) :
    (g.withEdges eds).edges.length = g.edges.length + eds.length := by
  simp [withEdges]

theorem addEdge_eq (g : Graph) (src dst : NodeID) (tag : StringID) :
    g.addEdge src dst tag = g.withEdges [⟨src, dst, tag, fun _ => none⟩] := rfl

/-- The properties of the last edge are changed where it stands. -/
theorem withEdges_modifyProps (g : Graph) (ed : Edge) (f : Props → Props) :
    (g.withEdges [ed]).modifyProps (.edge g.edges.length) f =
      g.withEdges [{ ed with props := f ed.props }] := by
  simp [withEdges, modifyProps, List.modify_eq_take_drop]

end Graph

section

variable [Platform] {s t : Handler} {k : ℤ} {l past left : List NodeID}

/-- The edge that a message asks for, between two nodes. -/
def EdgeMessage.edge (em : EdgeMessage) (src dst : NodeID) : Edge where
  src := src
  dst := dst
  tag := stringID em.tag
  props := em.properties.foldl (fun props p => p.apply props) fun _ => none

/-- Every property of the message has a value. -/
def EdgeMessage.Valid (em : EdgeMessage) : Prop := ∀ p ∈ em.properties, ∃ v, p.value = .ok v

/-- `add_edge` is a cross product: it ends, it adds one edge for each pair of nodes of the
two lists and changes nothing else in the graph, it caches these edges under its own
reference, and both references denote their lists again. -/
def AddsCrossProduct (ce : AddEdge) (srcs dsts : List NodeID) (s : Handler) : Prop :=
  ∃ t, Runs (addEdge ce) s (.ret 0 t) ∧
    t.db = s.db.withEdges ((srcs.product dsts).map fun p => ce.edge.edge p.1 p.2) ∧
    (0 ≤ ce.identifier → t.cachedEdges (toInt ce.identifier) =
      some ⟨none, [], List.range' s.db.edges.length (srcs.product dsts).length⟩) ∧
    Denotes (toInt ce.edge.src) srcs t ∧ Denotes (toInt ce.edge.dst) dsts t

/-! ### The state around a loop -/

variable [Platform.Quiet]

/-- The body of the loops adds the edge from `src` to `dst`. -/
theorem addEdgeBetween_runs {ce : AddEdge} (hs : s.Writable) (hce : ce.edge.Valid)
    (acc : ℕ × List EdgeID) (src dst : NodeID) :
    Runs (addEdgeBetween ce acc src dst) s
      (.ret (s.db.edges.length + 1, acc.2 ++ [s.db.edges.length])
        (s.setDb (s.db.withEdges [ce.edge.edge src dst]))) := by
  have hcall : ∀ n, call (.addEdge src dst (stringID ce.edge.tag)) n s = .ret () s :=
    fun n => call_apply (by rw [hs]; rfl) n
  have hadd : Runs (dbAddEdge src dst (stringID ce.edge.tag)) s (.ret s.db.edges.length
      (s.setDb (s.db.withEdges [⟨src, dst, stringID ce.edge.tag, fun _ => none⟩]))) :=
    Runs.of_eq fun n => by simp [dbAddEdge, hcall, Graph.addEdge_eq]
  have hprops := setProperties_runs (x := .edge s.db.edges.length)
    (s := s.setDb (s.db.withEdges [⟨src, dst, stringID ce.edge.tag, fun _ => none⟩])) hs hce
  rw [Handler.setDb_db, Graph.withEdges_modifyProps] at hprops
  exact hadd.bind (hprops.bind (Runs.of_eq fun n => rfl))

/-! ### The loops -/

/-- From `s` to `t` the edges `eds` have been added, and the transaction is the same. -/
structure Added (s t : Handler) (eds : List Edge) : Prop where
  txMode : t.txMode = s.txMode
  db : t.db = s.db.withEdges eds

omit [Platform] [Platform.Quiet] in
theorem Added.writable {eds : List Edge} (h : Added s t eds) (hs : s.Writable) :
    t.Writable := by
  rw [Handler.Writable]
  rw [h.txMode]
  exact hs

omit [Platform] [Platform.Quiet] in
theorem Added.trans {u : Handler} {eds eds' : List Edge} (h : Added s t eds)
    (h' : Added t u eds') : Added s u (eds ++ eds') where
  txMode := h'.txMode.trans h.txMode
  db := by rw [h'.db, h.db, Graph.withEdges_withEdges]

variable [Platform.Lawful]

/-- The inner loop goes from where the reference stands to its end. -/
theorem innerLoop_runs {ce : AddEdge} (hs : s.Writable) (hce : ce.edge.Valid) (n : NodeID)
    (hat : At k past left s) (acc : ℕ × List EdgeID) :
    ∃ acc' t, Runs (forCached k (fun acc m => addEdgeBetween ce acc n m) acc) s
        (.ret acc' t) ∧
      At k (past ++ left) [] t ∧ Added s t (left.map (ce.edge.edge n)) ∧
      acc'.2 = acc.2 ++ List.range' s.db.edges.length left.length ∧
      ∀ j, j ≠ k → t.cachedNodes j = s.cachedNodes j := by
  let Inv (past' left' : List NodeID) (acc' : ℕ × List EdgeID) (t : Handler) : Prop :=
    At k past' left' t ∧ ∃ done, past' = past ++ done ∧
      Added s t (done.map (ce.edge.edge n)) ∧
      acc'.2 = acc.2 ++ List.range' s.db.edges.length done.length ∧
      ∀ j, j ≠ k → t.cachedNodes j = s.cachedNodes j
  have hstart : Inv past left acc s :=
    ⟨hat, [], by simp, ⟨rfl, by simp⟩, by simp, fun _ _ => rfl⟩
  have hstep : ∀ {past' m left' acc' t}, Inv past' (m :: left') acc' t →
      ∃ acc'' t', Runs (addEdgeBetween ce acc' n m) t (.ret acc'' t') ∧
        At k past' (m :: left') t' ∧ ∀ r, NodeView t'.db r (past' ++ [m]) left' →
          Inv (past' ++ [m]) left' acc'' (t'.cacheNode k r) := by
    rintro past' m left' acc' t ⟨hat', done, rfl, hadded, hacc, hframe⟩
    have hrun := addEdgeBetween_runs (hadded.writable hs) hce acc' n m
    have hadded' : Added t (t.setDb (t.db.withEdges [ce.edge.edge n m])) _ := ⟨rfl, rfl⟩
    refine ⟨_, _, hrun, hat'.of_eq rfl rfl rfl, fun r hr => ⟨?_, done ++ [m], by simp, ?_, ?_, ?_⟩⟩
    · exact ⟨hat'.isOpen, r, Handler.cacheNode_same _ k r, hr⟩
    · have hboth := hadded.trans hadded'
      rw [List.map_append]
      exact ⟨hboth.txMode, hboth.db⟩
    · have hlen : t.db.edges.length = s.db.edges.length + done.length := by
        rw [hadded.db, Graph.withEdges_length, List.length_map]
      rw [hacc, hlen, List.length_append, List.length_singleton, List.range'_concat,
        List.append_assoc]
      simp
    · intro j hj
      rw [Handler.cacheNode_of_ne _ r hj, Handler.setDb_cachedNodes, hframe j hj]
  obtain ⟨acc', t, hrun, hat', done, hdone, hadded, hacc, hframe⟩ :=
    forCached_runs Inv (fun h => h.1) hstep hstart
  obtain rfl := List.append_cancel_left hdone
  exact ⟨acc', t, hrun, hat', hadded, hacc, hframe⟩

/-- One pass of the outer loop: the inner loop, and the reset of its reference. -/
theorem pass_runs {ce : AddEdge} (hs : s.Writable) (hce : ce.edge.Valid) (n : NodeID)
    (hat : At k past left s) (acc : ℕ × List EdgeID) :
    ∃ acc' t, Runs (addEdgesFrom ce k acc n) s (.ret acc' t) ∧
      Denotes k (past ++ left) t ∧ Added s t (left.map (ce.edge.edge n)) ∧
      acc'.2 = acc.2 ++ List.range' s.db.edges.length left.length ∧
      ∀ j, j ≠ k → t.cachedNodes j = s.cachedNodes j := by
  obtain ⟨acc', t, hrun, hat', hadded, hacc, hframe⟩ := innerLoop_runs hs hce n hat acc
  obtain ⟨u, hreset, ⟨r, rfl⟩, hden⟩ := hat'.reset
  rw [List.append_nil] at hden
  refine ⟨acc', t.cacheNode k r, hrun.bind (hreset.bind (Runs.of_eq fun _ => rfl)), hden,
    ⟨hadded.txMode, hadded.db⟩, hacc, fun j hj => ?_⟩
  rw [Handler.cacheNode_of_ne t r hj, hframe j hj]

/-- **Different references.** The two loops go over all pairs. -/
theorem addEdgesBetween_runs {ce : AddEdge} {src dst : ℤ} {srcs dsts : List NodeID}
    (hs : s.Writable) (hce : ce.edge.Valid) (hne : src ≠ dst) (hsrc : Denotes src srcs s)
    (hdst : Denotes dst dsts s) :
    ∃ eid t, Runs (addEdgesBetween ce src dst) s (.ret
        (eid, List.range' s.db.edges.length (srcs.product dsts).length) t) ∧
      Denotes src srcs t ∧ Denotes dst dsts t ∧
      Added s t ((srcs.product dsts).map fun p => ce.edge.edge p.1 p.2) := by
  let Inv (past left : List NodeID) (acc : ℕ × List EdgeID) (t : Handler) : Prop :=
    At src past left t ∧ Denotes dst dsts t ∧
      Added s t ((past.product dsts).map fun p => ce.edge.edge p.1 p.2) ∧
      acc.2 = List.range' s.db.edges.length (past.product dsts).length
  have hstart : Inv [] srcs (0, []) s :=
    ⟨hsrc, hdst, ⟨rfl, by simp [List.product]⟩, by simp [List.product]⟩
  have hstep : ∀ {past n left acc t}, Inv past (n :: left) acc t →
      ∃ acc' t', Runs (addEdgesFrom ce dst acc n) t (.ret acc' t') ∧ At src past (n :: left) t' ∧
        ∀ r, NodeView t'.db r (past ++ [n]) left →
          Inv (past ++ [n]) left acc' (t'.cacheNode src r) := by
    rintro past n left acc t ⟨hat, hden, hadded, hacc⟩
    have hpairs : (past ++ [n]).product dsts = past.product dsts ++ dsts.map (Prod.mk n) := by
      simp [List.product]
    obtain ⟨acc', t', hrun, hden', hadded', hacc', hframe⟩ :=
      pass_runs (hadded.writable hs) hce n hden acc
    have hnodes : t'.db.nodes = t.db.nodes := by rw [hadded'.db, Graph.withEdges_nodes]
    have hat' := hat.of_eq hadded'.txMode hnodes (hframe src hne)
    refine ⟨acc', t', hrun, hat', fun r hr => ⟨⟨hat'.isOpen, r, Handler.cacheNode_same _ _ r, hr⟩,
      ?_, ?_, ?_⟩⟩
    · exact hden'.of_eq rfl rfl (Handler.cacheNode_of_ne t' r hne.symm)
    · have hboth := hadded.trans hadded'
      rw [hpairs, List.map_append, List.map_map]
      exact ⟨hboth.txMode, hboth.db⟩
    · have hlen : t.db.edges.length = s.db.edges.length + (past.product dsts).length := by
        rw [hadded.db, Graph.withEdges_length, List.length_map]
      rw [hacc', hacc, hlen, List.range'_append_1]
      rw [hpairs, List.length_append, List.length_map]
  obtain ⟨acc, t, hrun, hat, hden, hadded, hacc⟩ := forCached_runs Inv (fun h => h.1) hstep hstart
  obtain ⟨u, hreset, ⟨r, rfl⟩, hden'⟩ := hat.reset
  rw [List.append_nil] at hden'
  refine ⟨acc.1, t.cacheNode src r, hrun.bind (hreset.bind (Runs.of_eq fun _ => ?_)), hden',
    hden.of_eq rfl rfl (Handler.cacheNode_of_ne t r hne.symm), ⟨hadded.txMode, hadded.db⟩⟩
  rw [List.nil_append] at hacc
  rw [← hacc]
  rfl

/-- **One reference to several nodes.** After each pass the reference is back at its first
node, and the step of the outer loop takes it to the second: the loop never ends. -/
theorem addEdgesBetween_diverges {ce : AddEdge} (hs : s.Writable) (hce : ce.edge.Valid)
    (hk : Denotes k l s) (hlen : 2 ≤ l.length) : Diverges (addEdgesBetween ce k k) s := by
  refine Diverges.bind (Diverges.loop (fun _ t => t.Writable ∧ ∃ past n left,
    At k past (n :: left) t ∧ 2 ≤ (past ++ n :: left).length) ?_ ?_)
  · rintro acc t ⟨ht, past, n, left, hat, hlen⟩ b
    obtain ⟨acc', u, hrun, hden, hadded, -, -⟩ := pass_runs ht hce n hat acc
    obtain ⟨x, y, rest, hl⟩ : ∃ x y rest, past ++ n :: left = x :: y :: rest := by
      match hl : past ++ n :: left with
      | [] | [_] => simp [hl] at hlen
      | x :: y :: rest => exact ⟨x, y, rest, rfl⟩
    rw [hl] at hden
    obtain ⟨r, hpass, hview⟩ := cachedPass_runs hat hrun hden
    refine (hpass.stuck_or_eq b).imp_right fun h => ⟨acc', u.cacheNode k r, h, hadded.writable ht,
      [x], y, rest, ⟨hden.isOpen, r, Handler.cacheNode_same u k r, hview⟩, ?_⟩
    simp
  · have hpos : 0 < l.length := by omega
    obtain ⟨n, left, rfl⟩ := List.exists_cons_of_length_pos hpos
    exact ⟨hs, [], n, left, hk, hlen⟩

/-- What a request needs besides its references: a transaction open for writing, a free
identifier of its own, and properties that have values. -/
structure Ready (ce : AddEdge) (s : Handler) : Prop where
  writable : s.Writable
  free : s.FreeEdge ce.identifier
  valid : ce.edge.Valid

omit [Platform.Quiet] [Platform.Lawful] in
/-- Up to the loops, `add_edge` only looks at its references. -/
theorem addEdge_eq {ce : AddEdge} {srcs dsts : List NodeID} (hready : Ready ce s)
    (hsrc : Denotes (toInt ce.edge.src) srcs s) (hdst : Denotes (toInt ce.edge.dst) dsts s)
    (hsrcs : srcs ≠ []) (hdsts : dsts ≠ []) (n : ℕ) :
    addEdge ce n s =
      (addEdgesBetween ce (toInt ce.edge.src) (toInt ce.edge.dst) >>=
        fun p => addEdgeFinish ce p.1 p.2) n
        (s.modifyResponse fun r => { r with nodeEdge := false }) := by
  obtain ⟨r, hr, hview⟩ := hsrc.view
  obtain ⟨r', hr', hview'⟩ := hdst.view
  have hfree : ¬ (0 ≤ ce.identifier ∧ (s.cachedEdges (toInt ce.identifier)).isSome) := by
    rintro ⟨hid, hsome⟩
    rw [hready.free hid] at hsome
    cases hsome
  have hbool : r.bool = true := by
    rw [hview.bool_eq, List.isEmpty_eq_false_iff.2 hsrcs]
    rfl
  have hbool' : r'.bool = true := by
    rw [hview'.bool_eq, List.isEmpty_eq_false_iff.2 hdsts]
    rfl
  simp [addEdge, modifyResponse, hfree, hr, hr', hbool, hbool']

omit [Platform] [Platform.Quiet] [Platform.Lawful] in
/-- The part after the loops caches the edges and touches neither the graph nor the node
references. -/
theorem addEdgeFinish_runs (ce : AddEdge) (eid : ℕ) (added : List EdgeID) (s : Handler) :
    ∃ t, Runs (addEdgeFinish ce eid added) s (.ret 0 t) ∧ t.db = s.db ∧
      t.txMode = s.txMode ∧ t.cachedNodes = s.cachedNodes ∧
      (0 ≤ ce.identifier → t.cachedEdges (toInt ce.identifier) = some ⟨none, [], added⟩) := by
  by_cases hid : 0 ≤ ce.identifier
  · refine ⟨((s.cacheEdge (toInt ce.identifier) ⟨none, [], added⟩).modifyResponse
      fun r => { r with rType := .edgeID, errorCode := .success }).modifyResponse
      fun r => { r with op := .int eid }, Runs.of_eq fun n => ?_, rfl, rfl, rfl, fun _ => ?_⟩
    · simp only [addEdgeFinish, when_pos hid]
      rfl
    · exact Handler.cacheEdge_same s _ _
  · refine ⟨(s.modifyResponse fun r =>
      { r with rType := .edgeID, errorCode := .success }).modifyResponse fun r =>
        { r with op := .int eid }, Runs.of_eq fun n => ?_, rfl, rfl, rfl,
      fun h => absurd h hid⟩
    simp only [addEdgeFinish, when_neg hid]
    rfl

omit [Platform.Quiet] in
/-- What is left to do after the loops. -/
theorem adds_of_loops {ce : AddEdge} {srcs dsts : List NodeID} {eid : ℕ} (hready : Ready ce s)
    (hsrc : Denotes (toInt ce.edge.src) srcs s) (hdst : Denotes (toInt ce.edge.dst) dsts s)
    (hsrcs : srcs ≠ []) (hdsts : dsts ≠ [])
    (hrun : Runs (addEdgesBetween ce (toInt ce.edge.src) (toInt ce.edge.dst))
      (s.modifyResponse fun r => { r with nodeEdge := false })
      (.ret (eid, List.range' s.db.edges.length (srcs.product dsts).length) t))
    (hadded : t.db = s.db.withEdges ((srcs.product dsts).map fun p => ce.edge.edge p.1 p.2))
    (hsrc' : Denotes (toInt ce.edge.src) srcs t)
    (hdst' : Denotes (toInt ce.edge.dst) dsts t) : AddsCrossProduct ce srcs dsts s := by
  obtain ⟨u, hfinish, hdb, htx, hnodes, hedges⟩ := addEdgeFinish_runs ce eid
    (List.range' s.db.edges.length (srcs.product dsts).length) t
  obtain ⟨N, hN⟩ := hrun.bind (f := fun p => addEdgeFinish ce p.1 p.2) hfinish
  refine ⟨u, ⟨N, fun n hn => ?_⟩, hdb.trans hadded, hedges, ?_, ?_⟩
  · rw [addEdge_eq hready hsrc hdst hsrcs hdsts]
    exact hN n hn
  · exact hsrc'.of_eq htx (by rw [hdb]) (by rw [hnodes])
  · exact hdst'.of_eq htx (by rw [hdb]) (by rw [hnodes])

/-- **Cross product.** For two different references `add_edge` adds an edge for each
pair. -/
theorem addEdge_runs {ce : AddEdge} {srcs dsts : List NodeID} (hready : Ready ce s)
    (hsrc : Denotes (toInt ce.edge.src) srcs s) (hdst : Denotes (toInt ce.edge.dst) dsts s)
    (hsrcs : srcs ≠ []) (hdsts : dsts ≠ [])
    (hne : toInt ce.edge.src ≠ toInt ce.edge.dst) : AddsCrossProduct ce srcs dsts s := by
  let s' := s.modifyResponse fun r => { r with nodeEdge := false }
  have hsrc₀ : Denotes (toInt ce.edge.src) srcs s' := hsrc.of_eq rfl rfl rfl
  have hdst₀ : Denotes (toInt ce.edge.dst) dsts s' := hdst.of_eq rfl rfl rfl
  obtain ⟨eid, t, hrun, hsrc', hdst', hadded⟩ :=
    addEdgesBetween_runs (s := s') hready.writable hready.valid hne hsrc₀ hdst₀
  exact adds_of_loops hready hsrc hdst hsrcs hdsts hrun hadded.db hsrc' hdst'

/-- **One node.** A reference to one node may also stand on both sides. -/
theorem addEdge_runs_single {ce : AddEdge} {n : NodeID} (hready : Ready ce s)
    (hk : Denotes (toInt ce.edge.src) [n] s)
    (heq : toInt ce.edge.src = toInt ce.edge.dst) : AddsCrossProduct ce [n] [n] s := by
  let s' := s.modifyResponse fun r => { r with nodeEdge := false }
  have hk₀ : Denotes (toInt ce.edge.src) [n] s' := hk.of_eq rfl rfl rfl
  obtain ⟨acc, t, hrun, hden, hadded, hacc, -⟩ :=
    pass_runs (s := s') hready.writable hready.valid n hk₀ (0, [])
  obtain ⟨r, hpass, hview⟩ := cachedPass_runs hk₀ hrun hden
  have hat : At (toInt ce.edge.src) ([] ++ [n]) [] (t.cacheNode (toInt ce.edge.src) r) :=
    ⟨hden.isOpen, r, Handler.cacheNode_same _ _ r, hview⟩
  obtain ⟨r', hr', hview'⟩ := hat.view
  have hstop : Runs (cachedPass (toInt ce.edge.src) (addEdgesFrom ce (toInt ce.edge.src)) acc)
      (t.cacheNode (toInt ce.edge.src) r) (.ret (.inr acc) (t.cacheNode (toInt ce.edge.src) r)) :=
    (cachedNode_runs hr').bind (Runs.of_eq fun _ => by simp [hview'.bool_eq])
  obtain ⟨u, hreset, ⟨r'', hu⟩, hden'⟩ := hat.reset
  have hloops : Runs (addEdgesBetween ce (toInt ce.edge.src) (toInt ce.edge.src)) s'
      (.ret (acc.1, acc.2) u) :=
    (Runs.loop_step_ret hpass (Runs.loop_stop hstop)).bind
      (hreset.bind (Runs.of_eq fun _ => rfl))
  have hdb : u.db = s.db.withEdges [ce.edge.edge n n] := by
    rw [hu]
    exact hadded.db
  rw [hacc] at hloops
  have hloops' : Runs (addEdgesBetween ce (toInt ce.edge.src) (toInt ce.edge.dst)) s'
      (.ret (acc.1, List.range' s.db.edges.length ([n].product [n]).length) u) := by
    rw [← heq]
    exact hloops
  have hdst : Denotes (toInt ce.edge.dst) [n] s := by rw [← heq]; exact hk
  have hdst' : Denotes (toInt ce.edge.dst) [n] u := by rw [← heq]; exact hden'
  exact adds_of_loops hready hk hdst (by simp) (by simp) hloops' hdb hden' hdst'

/-- **One reference to several nodes.** Then `add_edge` never answers. -/
theorem addEdge_diverges {ce : AddEdge} (hready : Ready ce s)
    (hk : Denotes (toInt ce.edge.src) l s) (heq : toInt ce.edge.src = toInt ce.edge.dst)
    (hlen : 2 ≤ l.length) : Diverges (addEdge ce) s := by
  have hl : l ≠ [] := by
    rintro rfl
    simp at hlen
  let s' := s.modifyResponse fun r => { r with nodeEdge := false }
  have hk₀ : Denotes (toInt ce.edge.src) l s' := hk.of_eq rfl rfl rfl
  have hdst : Denotes (toInt ce.edge.dst) l s := by rw [← heq]; exact hk
  have hloops := addEdgesBetween_diverges (s := s') hready.writable hready.valid hk₀ hlen
  intro n
  rw [addEdge_eq hready hk hdst hl hl, ← heq]
  exact hloops.bind n

omit [Platform.Lawful] in
/-- A reference denotes one list only. -/
theorem Denotes.unique {l' : List NodeID} (h : Denotes k l s) (h' : Denotes k l' s) :
    l = l' := by
  obtain ⟨r, hr, hview⟩ := h.view
  obtain ⟨r', hr', hview'⟩ := h'.view
  rw [hr] at hr'
  injection hr' with hr'
  subst hr'
  have hrest : ∀ {l}, NodeView s.db r [] l →
      Iter.Rest (ReusableIterator.iter SearchIterator.iter) s r l := fun {l} hl =>
    ((ReusableIterator.tracks scans_tracks l).mono fun _ _ => eq_of_reflTransGen_eq).rest
      ⟨[], View.mono hl fun _ _ hi => ⟨h.isOpen, hi⟩, rfl⟩
  exact (hrest hview).unique (hrest hview')

/-- **When `add_edge` is a cross product.** With two references to nodes, a request that
is otherwise in order is carried out in full exactly if the references are different or
denote one node only. -/
theorem add_edge_iff {ce : AddEdge} {srcs dsts : List NodeID} (hready : Ready ce s)
    (hsrc : Denotes (toInt ce.edge.src) srcs s) (hdst : Denotes (toInt ce.edge.dst) dsts s)
    (hsrcs : srcs ≠ []) (hdsts : dsts ≠ []) :
    AddsCrossProduct ce srcs dsts s ↔
      toInt ce.edge.src ≠ toInt ce.edge.dst ∨ srcs.length = 1 := by
  by_cases heq : toInt ce.edge.src = toInt ce.edge.dst
  · have hdst' : Denotes (toInt ce.edge.src) dsts s := by rw [heq]; exact hdst
    obtain rfl := hsrc.unique hdst'
    constructor
    · rintro ⟨t, hrun, -⟩
      right
      by_contra hlen
      have hpos := List.length_pos_of_ne_nil hsrcs
      exact (addEdge_diverges hready hsrc heq (by omega)).not_runs hrun
    · rintro (hne | hlen)
      · exact absurd heq hne
      · obtain ⟨n, rfl⟩ := List.length_eq_one_iff.1 hlen
        exact addEdge_runs_single hready hsrc heq
  · exact iff_of_true (addEdge_runs hready hsrc hdst hsrcs hdsts heq) (.inl heq)

end

/-- A handler over three nodes, with a reference to the first and one to the other two. -/
def twoReferences : Handler :=
  ((Handler.inTransaction ⟨List.replicate 3 (some ⟨1, fun _ => none⟩), []⟩).cacheNode 5
    ⟨none, [], [0]⟩).cacheNode 6 ⟨none, [], [1, 2]⟩

/-- A request for edges from one reference to another. -/
def connect (src dst : ℕ) : AddEdge where
  identifier := 8
  edge :=
    { src, dst, tag := "", properties := [{ type := .integerType, key := "", intValue := 4 }] }

theorem twoReferences_ready (src dst : ℕ) : Ready (connect src dst) twoReferences where
  writable := rfl
  free _ := rfl
  valid p hp := by
    rw [List.mem_singleton.1 hp]
    exact ⟨_, rfl⟩

theorem twoReferences_denotes_one : Denotes (toInt (5 : ℕ)) [0] twoReferences := by
  have hkey : toInt (5 : ℕ) = 5 := by decide
  rw [hkey]
  exact ⟨rfl, _, rfl, rfl, [], rfl, rfl, fun h => by cases h⟩

theorem twoReferences_denotes_two : Denotes (toInt (6 : ℕ)) [1, 2] twoReferences := by
  have hkey : toInt (6 : ℕ) = 6 := by decide
  rw [hkey]
  exact ⟨rfl, _, rfl, rfl, [], rfl, rfl, fun h => by cases h⟩

theorem add_edge_iff_two_references :
    AddsCrossProduct (connect 5 6) [0] [1, 2] twoReferences :=
  (add_edge_iff (twoReferences_ready 5 6) twoReferences_denotes_one twoReferences_denotes_two
    (by simp) (by simp)).2 (.inl (by decide))

/-- **One reference on both sides.** To connect two nodes with each other, `add_edge` runs
forever. -/
theorem add_edge_alias : ¬ AddsCrossProduct (connect 6 6) [1, 2] [1, 2] twoReferences := by
  rintro ⟨t, hrun, -⟩
  exact (addEdge_diverges (twoReferences_ready 6 6) twoReferences_denotes_two rfl
    (by simp)).not_runs hrun

end Vdms
