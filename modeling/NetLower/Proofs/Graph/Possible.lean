/-
When edits are possible.  An edit fails only on an identifier that stands for nothing, on
an edge of the wrong direction or on a tensor that may not be written; none of that
happens at the edges of stages of a well-formed graph.
-/
import NetLower.Proofs.Graph.Fits
import NetLower.Proofs.Graph.Splice

namespace NetLower.Graph

variable {g : Graph} {d t : DataId} {e : EdgeId} {r : Edge} {node : Data}

theorem addStage_possible {template : StageTemplate} {inputs outputs : List DataId}
    (hin : ∀ d ∈ inputs, ∃ node, g.data? d = some node)
    (hout : ∀ d ∈ outputs, ∃ node, g.data? d = some node ∧ node.producer = none ∧
      (node.usage = .output ∨ node.usage = .intermediate)) :
    ∃ z g', g.addStage template inputs outputs = .ok (z, g') := by
  have known : Outcome.forEach (inputs ++ outputs) (fun id => Outcome.check (g.data id)) = .ok () := by
    refine Outcome.forEach_eq_ok.2 fun d hd => ?_
    obtain ⟨node, hnode⟩ : ∃ node, g.data? d = some node := by
      rcases List.mem_append.1 hd with hd | hd
      · exact hin d hd
      · obtain ⟨node, hnode, _⟩ := hout d hd
        exact ⟨node, hnode⟩
    exact Outcome.check_eq_ok.2 ⟨node, data_eq_ok.2 hnode⟩
  have writable : Outcome.forEach outputs g.checkWritable = .ok () :=
    Outcome.forEach_eq_ok.2 fun d hd => checkWritable_eq_ok.2 (hout d hd)
  simp only [addStage, known, writable]
  exact ⟨_, _, rfl⟩

theorem replaceInput_possible (he : g.edge? e = some r) (hkind : r.kind = .input)
    (hd : ∃ node, g.data? d = some node) : ∃ g', g.replaceInput e d = .ok g' := by
  obtain ⟨node, hnode⟩ := hd
  simp only [replaceInput, data_eq_ok.2 hnode, edge_eq_ok.2 he, Outcome.bind_eq_ok, Except.ok.injEq,
    exists_eq_left']
  rw [if_neg (not_not.2 hkind)]
  exact ⟨_, rfl⟩

theorem replaceOutput_possible (he : g.edge? e = some r) (hkind : r.kind = .output) (hd : g.data? d = some node)
    (hp : node.producer = none) : ∃ g', g.replaceOutput e d = .ok g' := by
  refine ⟨((g.setProducer r.data none).setProducer d (some e)).pointEdge e d,
    Outcome.bind_eq_ok.2 ⟨node, data_eq_ok.2 hd, ?_⟩⟩
  rw [if_neg (by simp [hp])]
  refine Outcome.bind_eq_ok.2 ⟨r, edge_eq_ok.2 he, ?_⟩
  rw [if_neg (not_not.2 hkind)]

/-- A tensor that lost its writer has none. -/
theorem OutputLed.bereaved {g' : Graph} (h : OutputLed g e r t g') (hne : r.data ≠ t)
    (hd : g.data? r.data = some node) : g'.data? r.data = some { node with producer := none } := by
  rw [h.data?, hd, Option.map_some, if_neg hne, if_pos rfl]

/-- A constant can be had in any order of its dimensions. -/
theorem duplicate_possible {suffix : String} {desc : Desc} (hd : g.data? d = some node)
    (hconst : node.usage = .const) (hstocked : node.Stocked) (htotal : desc.total = node.desc.total) :
    ∃ copy g', g.duplicate d suffix desc = .ok (copy, g') := by
  obtain ⟨content, hrole⟩ : ∃ content, node.role = .const content := by
    revert hconst
    rw [Data.usage]
    cases node.role <;> simp [Role.usage]
  obtain ⟨needed, hneeded, hle⟩ := hstocked content hrole
  refine ⟨_, _, duplicate_eq_ok.2 ⟨node, content, needed, hd, ?_, htotal.trans hneeded, hle, rfl, rfl⟩⟩
  rw [Data.content?, hrole, Role.content?]

end NetLower.Graph
