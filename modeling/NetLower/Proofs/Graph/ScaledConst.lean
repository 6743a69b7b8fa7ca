/-
Scaled constants.  They are found again by their names, and a name says which constant was scaled
and by what only as long as the caller gives no two tensors the same name.  So a constant that is
asked for is the one that was meant exactly if the youngest tensor with its name, if there is one,
already is that constant; and asking twice gives the same constant, whichever it is.
-/
import NetLower.Proofs.Graph.Protection

namespace NetLower.Graph

variable {g g' : Graph} {d t : DataId} {node : Data} {content : Array F32} {factor : F32}

/-- The graphs a caller can build: edits are made, and of a tensor all but its name, its role and
its dimensions may be settled, of a stage anything. -/
inductive Built : Graph → Prop where
  | empty (name : String) : Built { name }
  | edit {g g' : Graph} {edit : Edit} : Built g → edit.apply g = .ok g' → Built g'
  | tensor {g : Graph} {d : DataId} {f : Data → Data} : Built g →
      (∀ node, g.data? d = some node → (f node).name = node.name ∧ (f node).role = node.role ∧
        (f node).desc.dims = node.desc.dims) → Built (g.modifyData d f)
  | stage {g : Graph} {id : StageId} {f : Stage → Stage} : Built g → Built (g.modifyStage id f)

/-! ## Enough values -/

/-- Every constant holds the values it needs. -/
def Stocked (g : Graph) : Prop := ∀ d node, g.data? d = some node → node.Stocked

namespace Stocked

theorem pushData (s : g.Stocked) (hnode : node.Stocked) : (g.pushData node).2.Stocked := by
  intro x new hnew
  rw [data?_pushData] at hnew
  split at hnew
  · exact Option.some.inj hnew ▸ hnode
  · exact s x new hnew

theorem of_map (s : g.Stocked) {f : DataId → Data → Data} (h : ∀ d, g'.data? d = (g.data? d).map (f d))
    (hf : ∀ d node, g.data? d = some node → (f d node).role = node.role ∧ (f d node).desc.dims = node.desc.dims) :
    g'.Stocked := by
  intro x new hnew
  rw [h, Option.map_eq_some_iff] at hnew
  obtain ⟨old, hold, rfl⟩ := hnew
  obtain ⟨hrole, hdims⟩ := hf x old hold
  intro content hcontent
  rw [Desc.total_congr hdims]
  exact s x old hold content (hrole.symm.trans hcontent)

theorem edit (s : g.Stocked) {edit : Edit} (h : edit.apply g = .ok g') : g'.Stocked := by
  cases edit with
  | addData name desc usage =>
    obtain ⟨_, h⟩ := snd_eq_ok.1 h
    have husage : usage ≠ .const := fun hconst => by simp [hconst, addData] at h
    obtain ⟨role, rfl, rfl⟩ := addData_eq_ok h
    exact s.pushData (Data.stocked_of_usage husage)
  | addConst name desc content =>
    obtain ⟨_, h⟩ := snd_eq_ok.1 h
    obtain ⟨_, hneeded, hle, _, rfl⟩ := addConst_eq_ok.1 h
    exact s.pushData (Data.stocked_of_total rfl hneeded hle)
  | addPlaceholder =>
    obtain ⟨_, h⟩ := snd_eq_ok.1 h
    obtain ⟨_, rfl⟩ | ⟨_, _, _, _, rfl⟩ := addPlaceholder_eq_ok h
    · exact s
    · exact s.pushData fun _ h => by cases h
  | duplicate source suffix desc =>
    obtain ⟨_, h⟩ := snd_eq_ok.1 h
    obtain ⟨_, _, _, _, _, hneeded, hle, _, rfl⟩ := duplicate_eq_ok.1 h
    exact s.pushData (Data.stocked_of_total rfl hneeded hle)
  | scaledConst source factor =>
    obtain ⟨_, h⟩ := snd_eq_ok.1 h
    obtain ⟨_, _, _, _, _, _, _, rfl | ⟨hstocked, _, _, _, rfl⟩⟩ := scaledConst_eq_ok h
    · exact s
    · exact s.pushData hstocked
  | addStage template inputs outputs =>
    obtain ⟨_, h⟩ := snd_eq_ok.1 h
    exact s.of_map (addStage_added h).data? fun _ _ _ => ⟨rfl, rfl⟩
  | replaceStage id kind =>
    simp only [Edit.apply, replaceStage, Outcome.bind_eq_ok, Outcome.pure_eq_ok] at h
    obtain ⟨_, _, rfl⟩ := h
    exact s
  | removeStage id =>
    obtain ⟨_, hremoved⟩ := removeStage_removed h
    exact s.of_map hremoved.data? fun _ _ _ => ⟨rfl, rfl⟩
  | replaceInput edge data =>
    obtain ⟨_, hled⟩ := replaceInput_led h
    exact s.of_map hled.data? fun _ _ _ => ⟨rfl, rfl⟩
  | replaceOutput edge data =>
    obtain ⟨_, hled⟩ := replaceOutput_led h
    exact s.of_map hled.data? fun _ _ _ => ⟨rfl, rfl⟩

end Stocked

theorem Built.stocked (b : g.Built) : g.Stocked := by
  induction b with
  | empty name => exact fun d node hd => by simp [data?] at hd
  | edit _ h ih => exact ih.edit h
  | @tensor g d f _ h ih =>
    refine ih.of_map (f := fun x node => if x = d then f node else node) (fun x => ?_) fun x node hx => ?_
    · rw [data?_modifyData]
      split <;> simp
    · split
      next heq =>
        subst heq
        exact (h node hx).2
      · exact ⟨rfl, rfl⟩
  | stage _ ih => exact ih

/-- Edits that fail included. -/
theorem Built.attemptAll (b : g.Built) (edits : List Edit) : (g.attemptAll edits).Built := by
  induction edits using List.reverseRecOn with
  | nil => exact b
  | append_singleton edits edit ih =>
    rw [attemptAll_append, attempt]
    split
    next h => exact ih.edit h
    · exact ih

/-! ## Names -/

/-- The tensor that comes last is found under its name. -/
theorem dataNamed?_pushData (g : Graph) (node : Data) :
    (g.pushData node).2.dataNamed? node.name = some (g.pushData node).1 := by
  simp [dataNamed?, Graph.pushData, List.zipIdx_append]

theorem data_of_dataNamed? {name : String} (h : g.dataNamed? name = some d) : ∃ node, g.data? d = some node := by
  obtain ⟨⟨found, index⟩, hfind, rfl⟩ := Option.map_eq_some_iff.1 h
  have hmem := List.mem_of_find?_eq_some hfind
  rw [List.mem_reverse, List.mem_zipIdx_iff_getElem?] at hmem
  exact ⟨found, Array.getElem?_toList.symm.trans hmem⟩

/-- The tensor is a constant with this descriptor and these values. -/
def Holds (g : Graph) (d : DataId) (desc : Desc) (values : Array F32) : Prop :=
  ∃ node, g.data? d = some node ∧ node.role = .const values ∧ node.desc = desc

/-! ## Scaling -/

section scaling

variable (hd : g.data? d = some node) (hrole : node.role = .const content)

include hd hrole

/-- Where a tensor has the name of the scaled constant, it is taken or refused. -/
theorem scaledConst_of_found {other : DataId} {found : Data}
    (hother : g.dataNamed? (scaledName node.name factor) = some other)
    (hfound : g.data? other = some found) :
    g.scaledConst d factor = if found.usage = .const ∧ found.desc = node.desc then .ok (other, g)
      else .error (.graph (.otherLayout (scaledName node.name factor))) := by
  rw [scaledConst, data_eq_ok.2 hd]
  simp only [Bind.bind, Except.bind, Data.content?_eq_some.2 hrole, hother, data_eq_ok.2 hfound]

/-- Where none has it, a new constant is made. -/
theorem scaledConst_of_none (hnone : g.dataNamed? (scaledName node.name factor) = none) :
    g.scaledConst d factor = g.addConst (scaledName node.name factor) node.desc (content.map (· * factor)) := by
  rw [scaledConst, data_eq_ok.2 hd]
  simp only [Bind.bind, Except.bind, Data.content?_eq_some.2 hrole, hnone]

/-- Asking again gives the same constant and changes nothing. -/
theorem scaledConst_again (h : g.scaledConst d factor = .ok (t, g')) : g'.scaledConst d factor = .ok (t, g') := by
  cases hother : g.dataNamed? (scaledName node.name factor) with
  | some other =>
    obtain ⟨found, hfound⟩ := data_of_dataNamed? hother
    have hsame := h
    rw [scaledConst_of_found hd hrole hother hfound] at hsame
    split at hsame
    · cases hsame
      exact h
    · cases hsame
  | none =>
    rw [scaledConst_of_none hd hrole hother] at h
    obtain ⟨_, _, _, rfl, rfl⟩ := addConst_eq_ok.1 h
    rw [scaledConst_of_found (data?_pushData_old hd) hrole (dataNamed?_pushData g _) (data?_pushData_self _)]
    simp [Data.usage, Role.usage]

theorem scaledConst_none_holds (s : g.Stocked) (hnone : g.dataNamed? (scaledName node.name factor) = none) :
    ∃ t g', g.scaledConst d factor = .ok (t, g') ∧ g'.Holds t node.desc (content.map (· * factor)) := by
  obtain ⟨needed, hneeded, hle⟩ := s d node hd content hrole
  let scaled : Data :=
    { name := scaledName node.name factor, desc := node.desc, role := .const (content.map (· * factor)) }
  refine ⟨(g.pushData scaled).1, (g.pushData scaled).2, ?_, scaled, data?_pushData_self _, rfl, rfl⟩
  rw [scaledConst_of_none hd hrole hnone]
  exact addConst_eq_ok.2 ⟨needed, hneeded, by simpa using hle, rfl, rfl⟩

end scaling

/-- Scaling a constant gives that constant scaled, unless the youngest tensor with the name of the
result is another one. Scaling it again gives the same tensor and adds none. -/
theorem Built.scaledConst_meant (b : g.Built) (hd : g.data? d = some node) (hrole : node.role = .const content)
    (factor : F32) :
    ((∃ t g', g.scaledConst d factor = .ok (t, g') ∧ g'.Holds t node.desc (content.map (· * factor))) ↔
        ∀ other, g.dataNamed? (scaledName node.name factor) = some other →
          g.Holds other node.desc (content.map (· * factor))) ∧
      ∀ t g', g.scaledConst d factor = .ok (t, g') → g'.scaledConst d factor = .ok (t, g') := by
  refine ⟨?_, fun t g' h => scaledConst_again hd hrole h⟩
  cases hother : g.dataNamed? (scaledName node.name factor) with
  | none => simpa using scaledConst_none_holds hd hrole b.stocked hother
  | some other =>
    obtain ⟨found, hfound⟩ := data_of_dataNamed? hother
    rw [scaledConst_of_found hd hrole hother hfound]
    constructor
    · rintro ⟨t, g', h, holds⟩ _ ⟨⟩
      split at h
      · cases h
        exact holds
      · cases h
    · intro h
      obtain ⟨found', hfound', hvalues, hdesc⟩ := h other rfl
      rw [hfound, Option.some.injEq] at hfound'
      subst hfound'
      refine ⟨other, g, if_pos ⟨?_, hdesc⟩, h other rfl⟩
      rw [Data.usage, hvalues]
      rfl

/-! ### Namesakes -/

def two : F32 := ⟨0x40000000⟩

def five : F32 := ⟨0x40A00000⟩

/-- A constant and its double, and then another constant with the name of the first. -/
def namesakes : Graph :=
  ({ name := "net" } : Graph).attemptAll [.addConst "w" half #[.one], .scaledConst ⟨0⟩ two,
    .addConst "w" half #[five]]

theorem built_namesakes : namesakes.Built := (Built.empty "net").attemptAll _

/-- The first constant is scaled once more, and its double is found. -/
theorem namesakes_first_meant :
    (∃ t g', namesakes.scaledConst ⟨0⟩ two = .ok (t, g') ∧ g'.Holds t half (#[F32.one].map (· * two))) ∧
      namesakes.scaledConst ⟨0⟩ two = .ok (⟨1⟩, namesakes) := by
  have hfirst : namesakes.data? ⟨0⟩ = some
      { name := "w", desc := half, role := .const #[.one] } := by decide +kernel
  have hfound : namesakes.dataNamed? (scaledName "w" two) = some ⟨1⟩ := by decide +kernel
  have hdouble : namesakes.data? ⟨1⟩ =
      some { name := "w@scale=2", desc := half, role := .const (#[F32.one].map (· * two)) } := by decide +kernel
  refine ⟨(built_namesakes.scaledConst_meant hfirst rfl two).1.2 fun other hother => ?_, by decide +kernel⟩
  obtain rfl : ⟨1⟩ = other := Option.some.inj (hfound.symm.trans hother)
  exact ⟨_, hdouble, rfl, rfl⟩

/-- The second one is scaled, and the double of the first one is taken for its own. -/
theorem namesakes_second_not_meant :
    namesakes.Built ∧ namesakes.Holds ⟨2⟩ half #[five] ∧ namesakes.scaledConst ⟨2⟩ two = .ok (⟨1⟩, namesakes) ∧
      ¬ namesakes.Holds ⟨1⟩ half (#[five].map (· * two)) := by
  have hsecond : namesakes.data? ⟨2⟩ = some
      { name := "w", desc := half, role := .const #[five] } := by decide +kernel
  refine ⟨built_namesakes, ⟨_, hsecond, rfl, rfl⟩, by decide +kernel, ?_⟩
  intro ⟨node, hnode, hvalues, _⟩
  have hdouble : (namesakes.data? ⟨1⟩).map Data.role ≠ some (.const (#[five].map (· * two))) := by decide +kernel
  exact hdouble (by rw [hnode, Option.map_some, hvalues])

end NetLower.Graph
