/-
Settling strides keeps a graph orderly.  The readers of a tensor are listed before any of
them is moved to a copy; since an edge is listed once and moving one edge leaves the
others alone, every listed reader still reads the tensor when its turn comes.
-/
import NetLower.Pass.Strides
import NetLower.Proofs.Graph.Sites

namespace NetLower.Graph

variable {g g' : Graph} {d : DataId}

theorem addCopy_added {source target : DataId} (h : g.addCopy source target = .ok g') :
    ∃ name z, Added g { name, kind := .copy } [source] [target] z g' := by
  simp only [addCopy, Outcome.bind_eq_ok, Outcome.pure_eq_ok] at h
  obtain ⟨node, _, ⟨z, _⟩, h, rfl⟩ := h
  exact ⟨_, z, addStage_added h⟩

theorem SameLinks.setReq (d : DataId) (req : StrideReq) : SameLinks g (g.setReq d req) :=
  .modifyData fun _ => ⟨rfl, rfl, rfl⟩

/-- What is asked of a new tensor can be said before an edge is led to it or after. -/
theorem OutputLed.setReq {new : Data} {edge : EdgeId} {r : Edge}
    (h : OutputLed (g.pushData new).2 edge r (g.pushData new).1 g') (req : StrideReq) :
    OutputLed (g.pushData { new with req }).2 edge r (g.pushData new).1 (g'.setReq (g.pushData new).1 req) := by
  obtain ⟨x, hx, hproducer⟩ := h.known
  rw [data?_pushData_self, Option.some.injEq] at hx
  refine ⟨h.edge, h.kind, ⟨{ new with req }, data?_pushData_self _, hx ▸ hproducer⟩, h.stage?, h.edge?,
    fun y => ?_⟩
  rw [Graph.setReq, data?_modifyData, h.data?, data?_pushData, data?_pushData,
    show (g.pushData { new with req }).1 = (g.pushData new).1 from rfl]
  by_cases hy : y = (g.pushData new).1
  · rw [if_pos hy, if_pos hy, if_pos hy]
    rfl
  · rw [if_neg hy, if_neg hy, if_neg hy]

/-! ## One tensor -/

/-- How the wish of a tensor's writer is met: there is none, it joins what is asked already, or the
writer is led to a new tensor, which is copied back. -/
inductive WriterMet (g : Graph) (reqs : EdgeReqs) (d : DataId) (current : StrideReq) : StrideReq → Graph → Prop
  | silent : (∀ node edge, g.data? d = some node → node.producer = some edge → reqs[edge.index]?.join = none) →
      WriterMet g reqs d current current g
  | merged {node : Data} {edge : EdgeId} {req merged : StrideReq} : g.data? d = some node →
      node.producer = some edge → reqs[edge.index]?.join = some req → current.merge req = some merged →
      WriterMet g reqs d current merged g
  | staged {node new : Data} {edge : EdgeId} {req : StrideReq} {r : Edge} {name : String} {z : StageId}
      {g₁ g' : Graph} : g.data? d = some node → node.producer = some edge → reqs[edge.index]?.join = some req →
      new.consumers = [] → new.producer = none → new.look = ⟨node.desc, .intermediate⟩ → new.req = req →
      new.location = none → OutputLed (g.pushData new).2 edge r (g.pushData new).1 g₁ →
      Added g₁ { name, kind := .copy } [(g.pushData new).1] [d] z g' → WriterMet g reqs d current current g'

theorem meetWriter_eq_ok {reqs : EdgeReqs} {current current' : StrideReq} {changed : Bool}
    (h : g.meetWriter reqs d current = .ok (current', g', changed)) : WriterMet g reqs d current current' g' := by
  simp only [Graph.meetWriter, Outcome.bind_eq_ok, data_eq_ok] at h
  obtain ⟨node, hnode, h⟩ := h
  split at h
  next hproducer =>
    cases h
    refine .silent fun node' edge hnode' hproducer' => ?_
    rw [hnode, Option.some.injEq] at hnode'
    rw [← hnode', hproducer] at hproducer'
    cases hproducer'
  next edge hproducer =>
  split at h
  next hreq =>
    cases h
    refine .silent fun node' edge' hnode' hproducer' => ?_
    rw [hnode, Option.some.injEq] at hnode'
    rw [← hnode', hproducer, Option.some.injEq] at hproducer'
    exact hproducer' ▸ hreq
  next req hreq =>
  split at h
  next merged hmerge =>
    cases h
    exact .merged hnode hproducer hreq hmerge
  simp only [Outcome.bind_eq_ok, Outcome.pure_eq_ok, Prod.mk.injEq] at h
  obtain ⟨⟨staged, g₁⟩, hlike, g₂, hled, g₃, hcopy, rfl, rfl, _⟩ := h
  obtain ⟨node', hnode', rfl, rfl⟩ := addLike_eq_ok.1 hlike
  rw [hnode, Option.some.injEq] at hnode'
  subst hnode'
  obtain ⟨r, hled⟩ := replaceOutput_led hled
  obtain ⟨name, z, hadd⟩ := addCopy_added hcopy
  exact .staged hnode hproducer hreq rfl rfl rfl rfl rfl (hled.setReq req) hadd

/-- How the wish of one reader of a tensor is met: there is none, it joins what is asked already, or
the reader is led to a copy. -/
inductive ReaderMet (g : Graph) (reqs : EdgeReqs) (d : DataId) (edge : EdgeId) (current : StrideReq) :
    StrideReq → Graph → Prop
  | silent : reqs[edge.index]?.join = none → ReaderMet g reqs d edge current current g
  | merged {req merged : StrideReq} : reqs[edge.index]?.join = some req → current.merge req = some merged →
      ReaderMet g reqs d edge current merged g
  | copied {node new : Data} {req : StrideReq} {r : Edge} {name : String} {z : StageId} {g₁ g' : Graph} :
      reqs[edge.index]?.join = some req → current.merge req = none → g.data? d = some node →
      new.consumers = [] → new.producer = none → new.look = ⟨node.desc, .intermediate⟩ → new.req = req →
      new.location = none → Added (g.pushData new).2 { name, kind := .copy } [d] [(g.pushData new).1] z g₁ →
      InputLed g₁ edge r (g.pushData new).1 g' → ReaderMet g reqs d edge current current g'

theorem meetReader_eq_ok {reqs : EdgeReqs} {current current' : StrideReq} {edge : EdgeId} {index : Nat}
    {changed : Bool} (h : Graph.meetReader reqs d (current, g) (edge, index) = .ok ((current', g'), changed)) :
    ReaderMet g reqs d edge current current' g' := by
  simp only [Graph.meetReader] at h
  split at h
  next hreq =>
    cases h
    exact .silent hreq
  next req hreq =>
  split at h
  next merged hmerge =>
    cases h
    exact .merged hreq hmerge
  next hmerge =>
  simp only [Outcome.bind_eq_ok, Outcome.pure_eq_ok, Prod.mk.injEq] at h
  obtain ⟨⟨copy, g₁⟩, hlike, g₂, hcopy, g₃, hled, ⟨rfl, rfl⟩, _⟩ := h
  obtain ⟨node, hnode, rfl, rfl⟩ := addLike_eq_ok.1 hlike
  rw [Graph.setReq, modifyData_pushData] at hcopy
  obtain ⟨name, z, hadd⟩ := addCopy_added hcopy
  obtain ⟨r, hled⟩ := replaceInput_led hled
  exact .copied hreq hmerge hnode rfl rfl rfl rfl rfl hadd hled

theorem Orderly.meetWriter {reqs : EdgeReqs} {current current' : StrideReq} {changed : Bool} (o : g.Orderly)
    (h : g.meetWriter reqs d current = .ok (current', g', changed)) :
    g'.Orderly ∧ ∀ {x y}, g.Joins .input x y → g'.Joins .input x y := by
  cases meetWriter_eq_ok h with
  | silent | merged => exact ⟨o, id⟩
  | @staged node new edge req r name z g₁ _ hnode hproducer _ hc hp hlook _ _ hled hadd =>
    obtain ⟨b, s, hs, he, ht⟩ := (o.wellFormed.producer d node edge hnode).1 hproducer
    rw [target?_of_edge? (show g.edge? edge = some r from hled.edge), Option.some.injEq] at ht
    subst ht
    exact o.buffer hc hp (.inr (congrArg Look.usage hlook)) hled hs he hadd

theorem Orderly.meetReader {reqs : EdgeReqs} {current current' : StrideReq} {edge : EdgeId} {index : Nat}
    {changed : Bool} (o : g.Orderly) (hedge : g.Joins .input edge d)
    (h : Graph.meetReader reqs d (current, g) (edge, index) = .ok ((current', g'), changed)) :
    g'.Orderly ∧ ∀ {kind x y}, x ≠ edge → g.Joins kind x y → g'.Joins kind x y := by
  cases meetReader_eq_ok h with
  | silent | merged => exact ⟨o, fun _ => id⟩
  | copied _ _ _ hc hp _ _ _ hadd hled =>
    obtain ⟨b, s, hs, he, ht⟩ := hedge
    exact o.tap hc hp hadd hled hs he ht

/-- Between two readers: those still to come read the tensor, and none comes twice. -/
structure Reading (d : DataId) (I : StrideReq × Graph → Prop) (rest : List (EdgeId × Nat))
    (state : StrideReq × Graph) : Prop where
  orderly : state.2.Orderly
  nodup : (rest.map Prod.fst).Nodup
  joins : ∀ x ∈ rest, state.2.Joins .input x.1 d
  inv : I state

theorem Reading.step {reqs : EdgeReqs} {I : StrideReq × Graph → Prop} {x : EdgeId × Nat}
    {rest : List (EdgeId × Nat)} {state state' : StrideReq × Graph} {changed : Bool}
    (h : Reading d I (x :: rest) state) (hI : I state → I state')
    (hmeet : Graph.meetReader reqs d state x = .ok (state', changed)) : Reading d I rest state' := by
  obtain ⟨edge, index⟩ := x
  obtain ⟨o, hnodup, hall, hstate⟩ := h
  rw [List.map_cons, List.nodup_cons] at hnodup
  obtain ⟨o', stay⟩ := o.meetReader (hall (edge, index) (by simp)) hmeet
  refine ⟨o', hnodup.2, fun x hx => stay (fun heq => hnodup.1 ?_) (hall x (by simp [hx])), hI hstate⟩
  exact heq ▸ List.mem_map_of_mem hx

/-- The readers that a tensor lists, once its writer is met. -/
theorem Orderly.reading {reqs : EdgeReqs} {I : StrideReq × Graph → Prop} {node : Data}
    {current current' : StrideReq} {changed : Bool} (o : g.Orderly) (hnode : g.data? d = some node)
    (h : g.meetWriter reqs d current = .ok (current', g', changed)) (hI : I (current', g')) :
    Reading d I node.consumers.zipIdx (current', g') := by
  obtain ⟨o', stay⟩ := o.meetWriter h
  refine ⟨o', ?_, fun x hx => stay ?_, hI⟩
  · rw [List.zipIdx_map_fst]
    exact o.wellFormed.nodup d node hnode
  · exact (o.wellFormed.consumers d node x.1 hnode).1 (List.fst_mem_of_mem_zipIdx hx)

theorem Orderly.resolveStrides {reqs : EdgeReqs} {changed : Bool} (o : g.Orderly)
    (h : g.resolveStrides reqs d = .ok (g', changed)) : g'.Orderly := by
  simp only [Graph.resolveStrides, Outcome.bind_eq_ok, data_eq_ok] at h
  obtain ⟨node, hnode, h⟩ := h
  split at h
  · cases h
    exact o
  simp only [Outcome.bind_eq_ok, Outcome.pure_eq_ok, Prod.mk.injEq] at h
  obtain ⟨⟨current, g₁, _⟩, hwriter, ⟨⟨current', g₂⟩, _⟩, hreaders, rfl, _⟩ := h
  have done := Pass.sweepWith_keeps (Reading d fun _ => True) (fun _ _ _ _ _ hr h => hr.step id h)
    (o.reading hnode hwriter trivial) hreaders
  exact done.orderly.sameLinks (.setReq _ _)

theorem Orderly.strides {config : Config} {changed : Bool} (o : g.Orderly)
    (h : Pass.strides.run config g = .ok (g', changed)) : g'.Orderly := by
  simp only [Pass.strides, Outcome.bind_eq_ok] at h
  obtain ⟨reqs, _, h⟩ := h
  exact Pass.sweep_keeps (fun _ g => g.Orderly) (fun _ _ _ _ _ o h => o.resolveStrides h) o h

end NetLower.Graph
