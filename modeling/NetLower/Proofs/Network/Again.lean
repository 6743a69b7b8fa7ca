/-
Networks written and read again.  Every field of a network is read as what it was written from,
and values of attributes as values of the same sort; only numbers that are not finite are lost,
and with them the network.
-/
import NetLower.Proofs.Json.Numerals
import NetLower.Proofs.Outcome

namespace NetLower

variable {α : Type}

theorem mapM_eq_some {read : β → Option α} {js : List β} {as : List α} :
    js.mapM read = some as ↔ List.Forall₂ (fun j a => read j = some a) js as := by
  induction js generalizing as with
  | nil => simp [eq_comm]
  | cons j js ih =>
    rw [List.mapM_cons, List.forall₂_cons_left_iff]
    simp only [Option.bind_eq_bind, Option.bind_eq_some_iff, Option.pure_def, Option.some.injEq, ih]
    constructor
    · intro h
      obtain ⟨a, ha, as', has, rfl⟩ := h
      exact ⟨a, as', ha, has, rfl⟩
    · intro h
      obtain ⟨a, as', ha, has, rfl⟩ := h
      exact ⟨a, ha, as', has, rfl⟩

namespace Document

variable {read : Json → Option α} {d : Document} {a : α} {ok : Prop}

/-- The document is read as a value if a condition holds, and as none of its type if not. -/
def Decodes (read : Json → Option α) (d : Document) (a : α) (ok : Prop) : Prop :=
  ∃ j, d.Spells j ∧ (ok → read j = some a) ∧ (¬ ok → read j = none)

theorem Spells.unique {j j' : Json} (h : d.Spells j) (h' : d.Spells j') : j = j' := by
  have := h.parse
  rw [h'.parse, Option.some.injEq] at this
  exact this.symm

/-- Items that are each read, or not. -/
theorem Decodes.items {write : α → Document} {ok : α → Prop} {as : List α}
    (h : ∀ a ∈ as, Decodes read (write a) a (ok a)) :
    ∃ js, List.Forall₂ Spells (as.map write) js ∧ ((∀ a ∈ as, ok a) → js.mapM read = some as) ∧
      (¬ (∀ a ∈ as, ok a) → js.mapM read = none) := by
  induction as with
  | nil => exact ⟨[], .nil, fun _ => rfl, fun hno => absurd (by simp) hno⟩
  | cons a as ih =>
    obtain ⟨j, hj, hok, hno⟩ := h a (by simp)
    obtain ⟨js, hjs, hoks, hnos⟩ := ih fun b hb => h b (by simp [hb])
    refine ⟨j :: js, .cons hj hjs, fun hall => ?_, fun hall => ?_⟩
    · rw [List.mapM_cons, hok (hall a (by simp)), hoks fun b hb => hall b (by simp [hb])]
      rfl
    · rw [List.mapM_cons]
      by_cases ha : ok a
      · rw [hok ha, hnos fun hrest => hall fun b hb => (List.mem_cons.1 hb).elim (fun heq => heq ▸ ha) (hrest b)]
        rfl
      · rw [hno ha]
        rfl

/-- A list is read as a list if each item is read. -/
theorem Decodes.list {write : α → Document} {ok : α → Prop} {as : List α}
    (h : ∀ a ∈ as, Decodes read (write a) a (ok a)) :
    Decodes (Json.list? read) (.list (as.map write)) as (∀ a ∈ as, ok a) := by
  obtain ⟨js, hjs, hread⟩ := Decodes.items h
  exact ⟨.list js, .list hjs, hread⟩

/-- Something or nothing. -/
theorem Decodes.option {write : α → Document} {ok : α → Prop} {o : Option α}
    (hnull : ∀ a ∈ o, ¬ (write a).Spells .null) (h : ∀ a ∈ o, Decodes read (write a) a (ok a)) :
    Decodes (Json.optional? read) (.ofOption write o) o (∀ a ∈ o, ok a) := by
  cases o with
  | none => exact ⟨.null, spells_null, fun _ => rfl, fun hno => absurd (by simp) hno⟩
  | some a =>
    obtain ⟨j, hj, hok, hno⟩ := h a rfl
    have hread : Json.optional? read j = (read j).map some := by
      unfold Json.optional?
      split
      · exact absurd hj (hnull a rfl)
      · rfl
    refine ⟨j, hj, fun hall => ?_, fun hall => ?_⟩
    · rw [hread, hok (hall a rfl)]
      rfl
    · rw [hread, hno fun ha => hall fun b hb => by cases hb; exact ha]
      rfl

theorem decodes_text (s : String) : Decodes Json.text? (.ofString s) s True :=
  ⟨_, spells_ofString s, fun _ => rfl, fun hno => absurd trivial hno⟩

theorem decodes_nat {n bound : Nat} (hn : n < bound) (hbound : bound ≤ UInt64.size) :
    Decodes (Json.natBelow? bound) (.ofNat n) n True := by
  refine ⟨_, spells_ofNat (Nat.lt_of_lt_of_le hn hbound), fun _ => ?_, fun hno => absurd trivial hno⟩
  have hwithin : (0 : Int) ≤ n ∧ (n : Int) ≤ (bound : Int) - 1 := by omega
  simp [Json.natBelow?, Json.intWithin?, hwithin]

theorem decodes_float {x : F32} (hback : x.isFinite = true → x.ReadsBack) :
    Decodes Json.float? (.ofF32 x) x (x.isFinite = true) := by
  obtain ⟨j, hj, h⟩ := spells_ofF32 hback
  refine ⟨j, hj, fun hok => ?_, fun hno => ?_⟩
  · rw [if_pos hok] at h
    obtain ⟨f, rfl, hf⟩ := h
    exact congrArg some hf
  · rw [if_neg hno] at h
    rw [h]
    rfl

/-- Lists of texts. -/
theorem decodes_texts (items : List String) : Decodes (Json.list? Json.text?) (.ofStrings items) items True := by
  obtain ⟨j, hj, hok, _⟩ := Decodes.list fun s (_ : s ∈ items) => decodes_text s
  exact ⟨j, hj, fun _ => hok fun _ _ => trivial, fun hno => absurd trivial hno⟩

end Document

/-! ## Tensors -/

namespace TensorInfo

/-- The numbers a tensor holds. -/
def numbers (t : TensorInfo) : List F32 := t.data.getD []

theorem fields?_record (name dtype shape kind data : Json) :
    Json.fields? fieldNames 4 (.record [(some "name", name), (some "dtype", dtype), (some "shape", shape),
      (some "kind", kind), (some "data", data)]) =
      some [some name, some dtype, some shape, some kind, some data] := rfl

theorem decodes {t : TensorInfo} (hshape : ∀ size ∈ t.shape, size < Size.range)
    (hback : ∀ x ∈ t.numbers, x.isFinite = true → x.ReadsBack) :
    t.document.Decodes ofJson? t (∀ x ∈ t.numbers, x.isFinite = true) := by
  obtain ⟨shape, hshapeText, hshape, _⟩ := Document.Decodes.list fun size (hsize : size ∈ t.shape) =>
    Document.decodes_nat (hshape size hsize) (Nat.le_refl _)
  have number {values : List F32} (hnumbers : values ∈ t.data) (x : F32) (hx : x ∈ values) :
      (Document.ofF32 x).Decodes Json.float? x (x.isFinite = true) :=
    Document.decodes_float (hback x (by rw [TensorInfo.numbers, hnumbers]; exact hx))
  obtain ⟨data, hdataText, hdata, hnodata⟩ := Document.Decodes.option
    (fun values hnumbers hnull => by
      obtain ⟨_, hitems, _⟩ := Document.Decodes.items (number hnumbers)
      cases (Document.Spells.list hitems).unique hnull)
    (fun values hnumbers => .list (number hnumbers))
  have hdtype : (Json.text (some t.dtype.word)).word? ElementType.all ElementType.word = some t.dtype := by
    cases t.dtype <;> rfl
  have hkind : (Json.text (some t.kind.word)).word? TensorKind.all TensorKind.word = some t.kind := by
    cases t.kind <;> rfl
  have hall : (∀ values ∈ t.data, ∀ x ∈ values, x.isFinite = true) ↔ ∀ x ∈ t.numbers, x.isFinite = true := by
    rw [TensorInfo.numbers]
    cases t.data <;> simp
  refine ⟨.record [(some "name", .text (some t.name)), (some "dtype", .text (some t.dtype.word)),
    (some "shape", shape), (some "kind", .text (some t.kind.word)), (some "data", data)], ?_, fun hok => ?_,
    fun hno => ?_⟩
  · exact .record (.cons ⟨rfl, Document.spells_ofString _⟩ (.cons ⟨rfl, Document.spells_ofString _⟩
      (.cons ⟨rfl, hshapeText⟩ (.cons ⟨rfl, Document.spells_ofString _⟩ (.cons ⟨rfl, hdataText⟩ .nil)))))
  · simp only [ofJson?, fields?_record, Json.text?, Option.bind_eq_bind, Option.bind_some, hdtype, hkind,
      hshape fun _ _ => trivial, Option.getD_some, hdata (hall.2 hok), Option.pure_def]
  · simp only [ofJson?, fields?_record, Json.text?, Option.bind_eq_bind, Option.bind_some, hdtype, hkind,
      hshape fun _ _ => trivial, Option.getD_some, hnodata (mt hall.1 hno), Option.bind_none]

end TensorInfo

/-! ## Layers -/

namespace LayerAttr

/-- The numbers with a point in an attribute. -/
def numbers : LayerAttr → List F32
  | float v => [v]
  | floats vs => vs
  | int _ | string _ | ints _ => []

/-- Whole numbers have 64 bits, and an empty list is one of whole numbers. -/
def Readable : LayerAttr → Prop
  | int v => Int64.minValue.toInt ≤ v ∧ v ≤ Int64.maxValue.toInt
  | ints vs => ∀ v ∈ vs, Int64.minValue.toInt ≤ v ∧ v ≤ Int64.maxValue.toInt
  | floats vs => vs ≠ []
  | float _ | string _ => True

theorem wordOf?_int {v : Int} (h : Int64.minValue.toInt ≤ v ∧ v ≤ Int64.maxValue.toInt) :
    wordOf? (.number (some (.int v))) = some v := if_pos h

/-- An attribute is read as a value of the same sort. -/
theorem decodes {a : LayerAttr} (h : a.Readable) (hback : ∀ x ∈ a.numbers, x.isFinite = true → x.ReadsBack) :
    a.document.Decodes ofJson? a (∀ x ∈ a.numbers, x.isFinite = true) := by
  cases a with
  | int v =>
    refine ⟨_, Document.spells_ofInt h.1 h.2, fun _ => ?_, fun hno => absurd (by simp [numbers]) hno⟩
    simp only [ofJson?, wordOf?_int h]
    rfl
  | float v =>
    obtain ⟨j, hj, hv⟩ := Document.spells_ofF32 (hback v (by simp [numbers]))
    refine ⟨j, hj, fun hok => ?_, fun hno => ?_⟩
    · rw [if_pos (hok v (by simp [numbers]))] at hv
      obtain ⟨f, rfl, rfl⟩ := hv
      rfl
    · rw [if_neg (by simpa [numbers] using hno)] at hv
      rw [hv]
      rfl
  | string v => exact ⟨_, Document.spells_ofString v, fun _ => rfl, fun hno => absurd (by simp [numbers]) hno⟩
  | ints vs =>
    have word (v : Int) (hv : v ∈ vs) : (Document.ofInt v).Decodes wordOf? v True :=
      ⟨_, Document.spells_ofInt (h v hv).1 (h v hv).2, fun _ => wordOf?_int (h v hv),
        fun hno => absurd trivial hno⟩
    obtain ⟨js, hjs, hread, _⟩ := Document.Decodes.items word
    refine ⟨.list js, .list hjs, fun _ => ?_, fun hno => absurd (by simp [numbers]) hno⟩
    have hints : Json.list? wordOf? (.list js) = some vs := hread fun _ _ => trivial
    simp only [ofJson?, hints]
    rfl
  | floats vs =>
    obtain ⟨js, hjs, hread, hnoread⟩ := Document.Decodes.items fun v (hv : v ∈ vs) =>
      Document.decodes_float (hback v hv)
    -- The first number has a point or is not there at all, so the list is not one of whole numbers.
    have hints : Json.list? wordOf? (.list js) = none := by
      cases vs with
      | nil => exact absurd rfl h
      | cons v vs =>
        obtain ⟨j, js, hj, _, rfl⟩ := List.forall₂_cons_left_iff.1 hjs
        obtain ⟨j', hj', hv⟩ := Document.spells_ofF32 (hback v (by simp [numbers]))
        have hword : wordOf? j = none := by
          rw [hj.unique hj']
          split at hv
          · obtain ⟨f, rfl, _⟩ := hv
            rfl
          · rw [hv]
            rfl
        change (j :: js).mapM wordOf? = none
        rw [List.mapM_cons, hword]
        rfl
    refine ⟨.list js, .list hjs, fun hok => ?_, fun hno => ?_⟩
    · have hfloats : Json.list? Json.float? (.list js) = some vs := hread hok
      simp only [ofJson?, hints, hfloats]
      rfl
    · have hfloats : Json.list? Json.float? (.list js) = none := hnoread hno
      simp only [ofJson?, hints, hfloats]
      rfl

/-- The attributes with one more field of the record. -/
def addField (attributes : List (String × LayerAttr)) (field : Option String × Json) :
    Option (List (String × LayerAttr)) := do
  return insert (← field.1) (← ofJson? field.2) attributes

theorem record?_record (fields : List (Option String × Json)) :
    record? (.record fields) = fields.foldlM addField [] := rfl

theorem insert_new {attributes : List (String × LayerAttr)} {name : String} {value : LayerAttr}
    (hname : name ∉ attributes.map Prod.fst) : insert name value attributes = attributes ++ [(name, value)] := by
  rw [insert, List.filter_eq_self.2]
  intro a ha
  simp only [bne_iff_ne]
  intro heq
  exact hname (heq ▸ List.mem_map_of_mem ha)

/-- The fields of attributes are added behind those with other names that were read before. -/
theorem decodes_fields {attributes : List (String × LayerAttr)} (hreadable : ∀ a ∈ attributes, a.2.Readable)
    (hback : ∀ a ∈ attributes, ∀ x ∈ a.2.numbers, x.isFinite = true → x.ReadsBack)
    (done : List (String × LayerAttr)) (hnames : ((done ++ attributes).map Prod.fst).Nodup) :
    ∃ js, List.Forall₂ (fun field j => j.1 = some field.1 ∧ field.2.Spells j.2)
        (attributes.map fun (name, value) => (name, value.document)) js ∧
      ((∀ a ∈ attributes, ∀ x ∈ a.2.numbers, x.isFinite = true) →
        js.foldlM addField done = some (done ++ attributes)) ∧
      (¬ (∀ a ∈ attributes, ∀ x ∈ a.2.numbers, x.isFinite = true) → js.foldlM addField done = none) := by
  induction attributes generalizing done with
  | nil => exact ⟨[], .nil, fun _ => by simp, fun hno => absurd (by simp) hno⟩
  | cons a attributes ih =>
    obtain ⟨j, hj, hok, hno⟩ := decodes (hreadable a (by simp)) (hback a (by simp))
    obtain ⟨js, hjs, hoks, hnos⟩ := ih (fun b hb => hreadable b (by simp [hb]))
      (fun b hb => hback b (by simp [hb])) (done ++ [a]) (by simpa using hnames)
    have hname : a.1 ∉ done.map Prod.fst := by
      intro hmem
      rw [List.map_append, List.map_cons, List.nodup_append] at hnames
      exact hnames.2.2 a.1 hmem a.1 (by simp) rfl
    have hadd (ha : ∀ x ∈ a.2.numbers, x.isFinite = true) : addField done (some a.1, j) = some (done ++ [a]) := by
      simp only [addField, hok ha, Option.bind_eq_bind, Option.bind_some, insert_new hname]
      rfl
    refine ⟨(some a.1, j) :: js, .cons ⟨rfl, hj⟩ hjs, fun hall => ?_, fun hall => ?_⟩
    · rw [List.foldlM_cons, hadd (hall a (by simp))]
      simpa using hoks fun b hb => hall b (by simp [hb])
    · rw [List.foldlM_cons]
      by_cases ha : ∀ x ∈ a.2.numbers, x.isFinite = true
      · rw [hadd ha]
        exact hnos fun hrest => hall fun b hb => (List.mem_cons.1 hb).elim (fun heq => heq ▸ ha) (hrest b)
      · rw [show addField done (some a.1, j) = none by simp [addField, hno ha]]
        rfl

/-- The attributes of a layer are read in the order in which they are written. -/
theorem decodes_record {attributes : List (String × LayerAttr)} (hnames : (attributes.map Prod.fst).Nodup)
    (hreadable : ∀ a ∈ attributes, a.2.Readable)
    (hback : ∀ a ∈ attributes, ∀ x ∈ a.2.numbers, x.isFinite = true → x.ReadsBack) :
    (Document.record (attributes.map fun (name, value) => (name, value.document))).Decodes record? attributes
      (∀ a ∈ attributes, ∀ x ∈ a.2.numbers, x.isFinite = true) := by
  obtain ⟨js, hjs, hread⟩ := decodes_fields hreadable hback [] hnames
  exact ⟨.record js, .record hjs, hread⟩

end LayerAttr

namespace Layer

/-- The numbers with a point in the attributes of a layer. -/
def numbers (l : Layer) : List F32 := l.attributes.flatMap fun a => a.2.numbers

/-- Each attribute has a name of its own and a value that can be read. -/
structure Readable (l : Layer) : Prop where
  names : (l.attributes.map Prod.fst).Nodup
  attributes : ∀ a ∈ l.attributes, a.2.Readable

theorem fields?_record (name type inputs outputs attributes weights biases : Json) :
    Json.fields? fieldNames 4 (.record [(some "name", name), (some "type", type), (some "inputs", inputs),
      (some "outputs", outputs), (some "attributes", attributes), (some "weights", weights),
      (some "biases", biases)]) =
    some [some name, some type, some inputs, some outputs, some attributes, some weights, some biases] := rfl

/-- A name or none. -/
theorem decodes_reference (o : Option String) :
    (Document.ofOption .ofString o).Decodes (Json.optional? Json.text?) o True := by
  obtain ⟨j, hj, hok, _⟩ := Document.Decodes.option
    (fun s (_ : s ∈ o) hnull => nomatch (Document.spells_ofString s).unique hnull)
    (fun s _ => Document.decodes_text s)
  exact ⟨j, hj, fun _ => hok fun _ _ => trivial, fun hno => absurd trivial hno⟩

theorem decodes {l : Layer} (h : l.Readable) (hback : ∀ x ∈ l.numbers, x.isFinite = true → x.ReadsBack) :
    l.document.Decodes ofJson? l (∀ x ∈ l.numbers, x.isFinite = true) := by
  have hnumbers {P : F32 → Prop} : (∀ x ∈ l.numbers, P x) ↔ ∀ a ∈ l.attributes, ∀ x ∈ a.2.numbers, P x := by
    simp only [numbers, List.mem_flatMap]
    exact ⟨fun hall a ha x hx => hall x ⟨a, ha, hx⟩, fun hall x hx => by
      obtain ⟨a, ha, hx⟩ := hx
      exact hall a ha x hx⟩
  obtain ⟨inputs, hinputsText, hinputs, _⟩ := Document.decodes_texts l.inputs
  obtain ⟨outputs, houtputsText, houtputs, _⟩ := Document.decodes_texts l.outputs
  obtain ⟨attributes, hattributesText, hattributes, hnone⟩ :=
    LayerAttr.decodes_record h.names h.attributes (hnumbers.1 hback)
  obtain ⟨weights, hweightsText, hweights, _⟩ := decodes_reference l.weights
  obtain ⟨biases, hbiasesText, hbiases, _⟩ := decodes_reference l.biases
  refine ⟨.record [(some "name", .text (some l.name)), (some "type", .text (some l.type)), (some "inputs", inputs),
    (some "outputs", outputs), (some "attributes", attributes), (some "weights", weights),
    (some "biases", biases)], ?_, fun hok => ?_, fun hno => ?_⟩
  · exact .record (.cons ⟨rfl, Document.spells_ofString _⟩ (.cons ⟨rfl, Document.spells_ofString _⟩
      (.cons ⟨rfl, hinputsText⟩ (.cons ⟨rfl, houtputsText⟩ (.cons ⟨rfl, hattributesText⟩ (.cons ⟨rfl, hweightsText⟩
        (.cons ⟨rfl, hbiasesText⟩ .nil)))))))
  · simp only [ofJson?, fields?_record, Json.text?, Option.bind_eq_bind, Option.bind_some, hinputs trivial,
      houtputs trivial, Option.getD_some, hattributes (hnumbers.1 hok), hweights trivial, hbiases trivial,
      Option.pure_def]
  · simp only [ofJson?, fields?_record, Json.text?, Option.bind_eq_bind, Option.bind_some, hinputs trivial,
      houtputs trivial, Option.getD_some, hnone (mt hnumbers.2 hno), Option.bind_none]

end Layer

/-! ## Networks -/

namespace Network

/-- The numbers in the tensors and attributes of a network, but for whole ones. -/
def numbers (n : Network) : List F32 := n.tensors.flatMap TensorInfo.numbers ++ n.layers.flatMap Layer.numbers

/-- Everything in the network is within the bounds of what can be read. -/
structure Readable (n : Network) : Prop where
  version : n.version < UInt32.size
  shapes : ∀ t ∈ n.tensors, ∀ size ∈ t.shape, size < Size.range
  layers : ∀ l ∈ n.layers, l.Readable

theorem fields?_record (name version tensors layers inputs outputs : Json) :
    Json.fields? fieldNames 6
      (.record [(some "name", name), (some "ir_version", version), (some "tensors", tensors),
        (some "layers", layers), (some "inputs", inputs), (some "outputs", outputs)]) =
    some [some name, some version, some tensors, some layers, some inputs, some outputs] := rfl

theorem decodes {n : Network} (h : n.Readable) (hback : ∀ x ∈ n.numbers, x.isFinite = true → x.ReadsBack) :
    n.document.Decodes ofJson? n (∀ x ∈ n.numbers, x.isFinite = true) := by
  have hnumbers {P : F32 → Prop} : (∀ x ∈ n.numbers, P x) ↔
      (∀ t ∈ n.tensors, ∀ x ∈ t.numbers, P x) ∧ ∀ l ∈ n.layers, ∀ x ∈ l.numbers, P x := by
    simp only [numbers, List.mem_append, List.mem_flatMap]
    constructor
    · exact fun hall => ⟨fun t ht x hx => hall x (.inl ⟨t, ht, hx⟩), fun l hl x hx => hall x (.inr ⟨l, hl, hx⟩)⟩
    · intro hall x hx
      rcases hx with ⟨t, ht, hx⟩ | ⟨l, hl, hx⟩
      · exact hall.1 t ht x hx
      · exact hall.2 l hl x hx
  obtain ⟨hbackTensors, hbackLayers⟩ := hnumbers.1 hback
  obtain ⟨version, hversionText, hversion, _⟩ := Document.decodes_nat h.version (by decide)
  obtain ⟨tensors, htensorsText, htensors, hnoTensors⟩ := Document.Decodes.list fun t (ht : t ∈ n.tensors) =>
    TensorInfo.decodes (h.shapes t ht) (hbackTensors t ht)
  obtain ⟨layers, hlayersText, hlayers, hnoLayers⟩ := Document.Decodes.list fun l (hl : l ∈ n.layers) =>
    Layer.decodes (h.layers l hl) (hbackLayers l hl)
  obtain ⟨inputs, hinputsText, hinputs, _⟩ := Document.decodes_texts n.inputs
  obtain ⟨outputs, houtputsText, houtputs, _⟩ := Document.decodes_texts n.outputs
  refine ⟨.record [(some "name", .text (some n.name)), (some "ir_version", version), (some "tensors", tensors),
    (some "layers", layers), (some "inputs", inputs), (some "outputs", outputs)], ?_, fun hok => ?_, fun hno => ?_⟩
  · exact .record (.cons ⟨rfl, Document.spells_ofString _⟩ (.cons ⟨rfl, hversionText⟩ (.cons ⟨rfl, htensorsText⟩
      (.cons ⟨rfl, hlayersText⟩ (.cons ⟨rfl, hinputsText⟩ (.cons ⟨rfl, houtputsText⟩ .nil))))))
  · obtain ⟨hokTensors, hokLayers⟩ := hnumbers.1 hok
    simp only [ofJson?, fields?_record, Json.text?, Option.bind_eq_bind, Option.bind_some, hversion trivial,
      htensors hokTensors, hlayers hokLayers, hinputs trivial, houtputs trivial, Option.pure_def]
  · simp only [ofJson?, fields?_record, Json.text?, Option.bind_eq_bind, Option.bind_some, hversion trivial]
    by_cases hokTensors : ∀ t ∈ n.tensors, ∀ x ∈ t.numbers, x.isFinite = true
    · rw [htensors hokTensors, hnoLayers fun hokLayers => hno (hnumbers.2 ⟨hokTensors, hokLayers⟩)]
      rfl
    · rw [hnoTensors hokTensors]
      rfl

end Network

/-! ## What was read -/

theorem Json.list?_eq_some {read : Json → Option α} {j : Json} {as : List α} :
    j.list? read = some as ↔ ∃ js, j = .list js ∧ List.Forall₂ (fun j a => read j = some a) js as := by
  cases j with
  | list js => simp [list?, mapM_eq_some]
  | null | bool | number | text | record => simp [list?]

/-- What is in a list was read. -/
theorem Json.of_mem_list? {read : Json → Option α} {j : Json} {as : List α} (h : j.list? read = some as) {a : α}
    (ha : a ∈ as) : ∃ j, read j = some a := by
  obtain ⟨js, -, hread⟩ := list?_eq_some.1 h
  clear h
  induction hread with
  | nil => cases ha
  | @cons j b js as hj _ ih =>
    rcases List.mem_cons.1 ha with rfl | ha
    · exact ⟨j, hj⟩
    · exact ih ha

theorem Json.intWithin?_eq_some {lo hi v : Int} {j : Json} (h : j.intWithin? lo hi = some v) :
    lo ≤ v ∧ v ≤ hi := by
  unfold intWithin? at h
  split at h
  · split at h
    next hv =>
      cases h
      exact hv
    · cases h
  · cases h

theorem Json.natBelow?_eq_some {bound n : Nat} {j : Json} (h : j.natBelow? bound = some n) : n < bound := by
  obtain ⟨v, hv, rfl⟩ := Option.map_eq_some_iff.1 h
  have := intWithin?_eq_some hv
  omega

theorem TensorInfo.shape_of_ofJson? {j : Json} {t : TensorInfo} (h : ofJson? j = some t) :
    ∀ size ∈ t.shape, size < Size.range := by
  simp only [ofJson?, Option.bind_eq_bind, Option.bind_eq_some_iff] at h
  obtain ⟨fields, _, h⟩ := h
  split at h
  · simp only [Option.bind_eq_some_iff, Option.pure_def, Option.some.injEq] at h
    obtain ⟨_, _, _, _, shape, hshape, _, _, _, _, rfl⟩ := h
    intro size hsize
    obtain ⟨_, hj⟩ := Json.of_mem_list? hshape hsize
    exact Json.natBelow?_eq_some hj
  · cases h

namespace LayerAttr

theorem readable_of_ofJson? {j : Json} {a : LayerAttr} (h : ofJson? j = some a) : a.Readable := by
  simp only [ofJson?, Option.orElse_eq_orElse, Option.orElse_eq_or, Option.or_eq_some_iff, Option.map_eq_some_iff,
    Option.map_eq_none_iff] at h
  rcases h with ⟨v, hv, rfl⟩ | ⟨_, ⟨v, _, rfl⟩ | ⟨_, ⟨v, _, rfl⟩ | ⟨_, ⟨vs, hvs, rfl⟩ | ⟨hints, vs, hvs, rfl⟩⟩⟩⟩
  · exact Json.intWithin?_eq_some hv
  · trivial
  · trivial
  · intro v hv
    obtain ⟨_, hj⟩ := Json.of_mem_list? hvs hv
    exact Json.intWithin?_eq_some hj
  · rintro rfl
    obtain ⟨js, rfl, hjs⟩ := Json.list?_eq_some.1 hvs
    cases hjs
    cases hints

/-- A field keeps the names of attributes apart and their values readable. -/
theorem readable_of_addField {attributes all : List (String × LayerAttr)} {field : Option String × Json}
    (h : addField attributes field = some all)
    (hread : (attributes.map Prod.fst).Nodup ∧ ∀ a ∈ attributes, a.2.Readable) :
    (all.map Prod.fst).Nodup ∧ ∀ a ∈ all, a.2.Readable := by
  simp only [addField, Option.bind_eq_bind, Option.bind_eq_some_iff, Option.pure_def, Option.some.injEq] at h
  obtain ⟨name, _, value, hvalue, rfl⟩ := h
  refine ⟨?_, fun a ha => ?_⟩
  · rw [insert, List.map_append, List.map_singleton]
    refine List.nodup_append.2 ⟨(List.filter_sublist.map Prod.fst).nodup hread.1, by simp, fun x hx y hy => ?_⟩
    obtain ⟨b, hb, rfl⟩ := List.mem_map.1 hx
    rw [List.mem_singleton.1 hy]
    simpa using (List.mem_filter.1 hb).2
  · rw [insert, List.mem_append, List.mem_singleton] at ha
    rcases ha with ha | rfl
    · exact hread.2 a (List.mem_filter.1 ha).1
    · exact readable_of_ofJson? hvalue

theorem readable_of_record? {j : Json} {attributes : List (String × LayerAttr)} (h : record? j = some attributes) :
    (attributes.map Prod.fst).Nodup ∧ ∀ a ∈ attributes, a.2.Readable := by
  have kept (fields : List (Option String × Json)) : ∀ {done all : List (String × LayerAttr)},
      (done.map Prod.fst).Nodup ∧ (∀ a ∈ done, a.2.Readable) → fields.foldlM addField done = some all →
      (all.map Prod.fst).Nodup ∧ ∀ a ∈ all, a.2.Readable := by
    induction fields with
    | nil =>
      intro done all hdone hall
      cases hall
      exact hdone
    | cons field fields ih =>
      intro done all hdone hall
      rw [List.foldlM_cons, Option.bind_eq_bind, Option.bind_eq_some_iff] at hall
      obtain ⟨next, hnext, hall⟩ := hall
      exact ih (readable_of_addField hnext hdone) hall
  cases j with
  | record fields => exact kept fields (by simp) (record?_record fields ▸ h)
  | null | bool | number | text | list => cases h

end LayerAttr

theorem Layer.readable_of_ofJson? {j : Json} {l : Layer} (h : ofJson? j = some l) : l.Readable := by
  simp only [ofJson?, Option.bind_eq_bind, Option.bind_eq_some_iff] at h
  obtain ⟨fields, _, h⟩ := h
  split at h
  · simp only [Option.bind_eq_some_iff, Option.pure_def, Option.some.injEq] at h
    obtain ⟨_, _, _, _, _, _, _, _, _, hattributes, _, _, _, _, rfl⟩ := h
    exact ⟨(LayerAttr.readable_of_record? hattributes).1, (LayerAttr.readable_of_record? hattributes).2⟩
  · cases h

namespace Network

theorem readable_of_ofJson? {j : Json} {n : Network} (h : ofJson? j = some n) : n.Readable := by
  simp only [ofJson?, Option.bind_eq_bind, Option.bind_eq_some_iff] at h
  obtain ⟨fields, _, h⟩ := h
  split at h
  · simp only [Option.bind_eq_some_iff, Option.pure_def, Option.some.injEq] at h
    obtain ⟨_, _, version, hversion, tensors, htensors, layers, hlayers, _, _, _, _, rfl⟩ := h
    refine ⟨Json.natBelow?_eq_some hversion, fun t ht => ?_, fun l hl => ?_⟩
    · obtain ⟨_, hj⟩ := Json.of_mem_list? htensors ht
      exact TensorInfo.shape_of_ofJson? hj
    · obtain ⟨_, hj⟩ := Json.of_mem_list? hlayers hl
      exact Layer.readable_of_ofJson? hj
  · cases h

theorem parse_eq_ok {text : String} {n : Network} (h : parse text = .ok n) : n.Readable ∧ n.validate = .ok () := by
  unfold parse at h
  split at h
  · cases h
  · unfold ofJson at h
    split at h
    · cases h
    next hn =>
      simp only [Outcome.check_bind_eq_ok, Outcome.pure_eq_ok] at h
      obtain ⟨hvalid, rfl⟩ := h
      exact ⟨readable_of_ofJson? hn, hvalid⟩

end Network

/-! ## The order of attributes -/

/-- One layer, with its attributes in another order. -/
structure Layer.Same (l l' : Layer) : Prop where
  attributes : l'.attributes.Perm l.attributes
  rest : { l' with attributes := [] } = { l with attributes := [] }

/-- One network, with the attributes of each layer in another order. -/
structure Network.Same (n n' : Network) : Prop where
  layers : List.Forall₂ Layer.Same n.layers n'.layers
  rest : { n' with layers := [] } = { n with layers := [] }

namespace Layer.Same

variable {l l' : Layer}

theorem mem_numbers (h : l.Same l') {x : F32} : x ∈ l'.numbers ↔ x ∈ l.numbers :=
  (h.attributes.flatMap_right _).mem_iff

theorem readable (h : l.Same l') (hl : l.Readable) : l'.Readable :=
  ⟨(h.attributes.map _).nodup_iff.2 hl.names, fun a ha => hl.attributes a (h.attributes.mem_iff.1 ha)⟩

end Layer.Same

namespace Network

variable {n n' : Network}

theorem Same.parts (h : n.Same n') :
    n'.version = n.version ∧ n'.tensors = n.tensors ∧ n'.inputs = n.inputs ∧ n'.outputs = n.outputs := by
  have hrest := h.rest
  simp only [Network.mk.injEq, true_and] at hrest
  exact hrest.2

theorem Same.mem_numbers (h : n.Same n') {x : F32} : x ∈ n'.numbers ↔ x ∈ n.numbers := by
  obtain ⟨_, htensors, _⟩ := h.parts
  rw [numbers, numbers, htensors, List.mem_append, List.mem_append]
  refine or_congr_right ?_
  have hlayers := h.layers
  generalize n.layers = layers at hlayers
  generalize n'.layers = layers' at hlayers
  induction hlayers with
  | nil => rfl
  | cons hl _ ih =>
    rw [List.flatMap_cons, List.flatMap_cons, List.mem_append, List.mem_append, hl.mem_numbers]
    exact or_congr_right ih

theorem Same.readable (h : n.Same n') (hn : n.Readable) : n'.Readable := by
  obtain ⟨hversion, htensors, _⟩ := h.parts
  refine ⟨hversion ▸ hn.version, htensors ▸ hn.shapes, ?_⟩
  have hreadable := hn.layers
  have hlayers := h.layers
  generalize n.layers = layers at hlayers hreadable
  generalize n'.layers = layers' at hlayers
  induction hlayers with
  | nil => simp
  | cons hl _ ih =>
    intro l' hl'
    rcases List.mem_cons.1 hl' with rfl | hl'
    · exact hl.readable (hreadable _ (by simp))
    · exact ih (fun l hl => hreadable l (by simp [hl])) l' hl'

/-- Validation does not look at attributes. -/
theorem Same.validate_eq (h : n.Same n') : n'.validate = n.validate := by
  obtain ⟨hversion, htensors, hinputs, houtputs⟩ := h.parts
  have hnames (names : List String) : n'.validateNames names = n.validateNames names := by
    simp only [validateNames, tensor, htensors]
  have hlayers {layers layers' : List Layer} (hlayers : List.Forall₂ Layer.Same layers layers') :
      ∀ seen, n'.validateLayers seen layers' = n.validateLayers seen layers := by
    induction hlayers with
    | nil => exact fun _ => rfl
    | @cons l l' layers layers' hl _ ih =>
      intro seen
      have hrest := hl.rest
      simp only [Layer.mk.injEq] at hrest
      obtain ⟨hname, _, hins, houts, _, hweights, hbiases⟩ := hrest
      have hconstants : n'.validateConstants l' = n.validateConstants l := by
        simp only [validateConstants, tensor, htensors, hname, hweights, hbiases]
      simp only [validateLayers, hname, hins, houts, hnames, hconstants, ih]
  simp only [validate, validateVersion, hversion, htensors, hinputs, houtputs, hnames, hlayers h.layers]

/-- The text of a network is read as the network if all its numbers are finite, and refused if not. -/
theorem parse_text (h : n.Readable) (hback : ∀ x ∈ n.numbers, x.isFinite = true → x.ReadsBack) :
    parse n.text = if ∀ x ∈ n.numbers, x.isFinite = true then (do n.validate; return n)
    else .error (.network .json) := by
  obtain ⟨j, hj, hok, hno⟩ := decodes h hback
  simp only [parse, show Json.parse? n.text = some j from hj.parse, ofJson]
  by_cases hall : ∀ x ∈ n.numbers, x.isFinite = true
  · rw [if_pos hall, hok hall]
  · rw [if_neg hall, hno hall]

/-- A network that was read is read again from its text, in whichever order the attributes of a
layer are written, with values of the same sorts, if each of its finite numbers is read as itself;
but if it has a number that is not finite, and texts such as `1e39` give one, then its text is
refused. -/
theorem parse_text_again {text : String} (h : parse text = .ok n) (same : n.Same n')
    (hback : ∀ x ∈ n.numbers, x.isFinite = true → x.ReadsBack) :
    parse n'.text = if ∀ x ∈ n.numbers, x.isFinite = true then .ok n' else .error (.network .json) := by
  obtain ⟨hreadable, hvalid⟩ := parse_eq_ok h
  have hfinite : (∀ x ∈ n'.numbers, x.isFinite = true) ↔ ∀ x ∈ n.numbers, x.isFinite = true :=
    forall_congr' fun x => imp_congr_left same.mem_numbers
  rw [parse_text (same.readable hreadable) fun x hx => hback x (same.mem_numbers.1 hx), same.validate_eq, hvalid]
  by_cases hall : ∀ x ∈ n.numbers, x.isFinite = true
  · rw [if_pos hall, if_pos (hfinite.2 hall)]
    rfl
  · rw [if_neg hall, if_neg (mt hfinite.1 hall)]

/-- A network with a layer around some attributes. -/
def around (attributes : List (String × LayerAttr)) : Network :=
  { name := "net", version := 7
    tensors := [{ name := "x", shape := [1], kind := .input }]
    layers := [{ name := "l", type := "Power", inputs := ["x"], outputs := ["x"], attributes }]
    inputs := ["x"] }

/-- A text of such a network. -/
def aroundText (attributes : String) : String :=
  "\x7b\"name\":\"net\",\"ir_version\":7,\"tensors\":[[\"x\",\"f16\",[1],\"input\"]]," ++
    "\"layers\":[[\"l\",\"Power\",[\"x\"],[\"x\"],\x7b" ++ attributes ++
    "\x7d]],\"inputs\":[\"x\"],\"outputs\":[]\x7d"

/-- One half. -/
def oneHalf : F32 := ⟨0x3f000000⟩

theorem parse_eq_ok_of_toOption {text : String} (h : (parse text).toOption = some n) : parse text = .ok n := by
  cases hparse : parse text with
  | error _ =>
    rw [hparse] at h
    cases h
  | ok m =>
    rw [hparse] at h
    exact congrArg Except.ok (Option.some.inj h)

/-- Attributes of all sorts. -/
def allSorts : List (String × LayerAttr) :=
  [("gains", .floats [.one, oneHalf]), ("scale", .float oneHalf), ("axis", .int (-3)), ("pads", .ints []),
    ("mode", .string "\x07")]

def allSortsText : String := "\"gains\":[1,0.5],\"scale\":0.5,\"axis\":-3,\"pads\":[],\"mode\":\"\\u0007\""

/-- Attributes of all sorts are read, written the other way round and read again. -/
theorem allSorts_text_again : parse (aroundText allSortsText) = .ok (around allSorts) ∧
    parse (around allSorts.reverse).text = .ok (around allSorts.reverse) := by
  have hread : parse (aroundText allSortsText) = .ok (around allSorts) :=
    parse_eq_ok_of_toOption (by decide +kernel)
  have hnumbers : (around allSorts).numbers = [.one, oneHalf, oneHalf] := rfl
  have hfinite : ∀ x ∈ [F32.one, oneHalf, oneHalf], x.isFinite = true := by decide
  have hback : ∀ x ∈ [F32.one, oneHalf, oneHalf], x.ReadsBack := by
    unfold F32.ReadsBack
    decide +kernel
  have same : (around allSorts).Same (around allSorts.reverse) := ⟨.cons ⟨List.reverse_perm _, rfl⟩ .nil, rfl⟩
  have again := parse_text_again hread same fun x hx _ => hback x (hnumbers ▸ hx)
  rw [if_pos fun x hx => hfinite x (hnumbers ▸ hx)] at again
  exact ⟨hread, again⟩

/-- A number beyond all finite ones is read as infinity, and the text of the network with it is
refused. -/
theorem overflow_text_refused :
    ∃ n, parse (aroundText "\"scale\":1e39") = .ok n ∧ parse n.text = .error (.network .json) := by
  let infinity : F32 := ⟨0x7f800000⟩
  have hinfinite : infinity.isFinite = false := by decide
  have hread : parse (aroundText "\"scale\":1e39") = .ok (around [("scale", .float infinity)]) :=
    parse_eq_ok_of_toOption (by decide +kernel)
  have hnumbers (x : F32) : x ∈ (around [("scale", .float infinity)]).numbers ↔ x = infinity := List.mem_singleton
  refine ⟨_, hread, ?_⟩
  rw [parse_text (parse_eq_ok hread).1 fun x hx hfinite => ?_, if_neg fun hall => ?_]
  · rw [hall infinity ((hnumbers infinity).2 rfl)] at hinfinite
    cases hinfinite
  · rw [(hnumbers x).1 hx, hinfinite] at hfinite
    cases hfinite

end Network

end NetLower
