/-
  Captured calls are decoded from every spelling of them.

  The spellings of a call are the JSON texts that say the same: the members of an object come in any
  order, there may be others, fields that have their default may be left out, the plain forms of
  values go by two names, and all that a JSON text leaves open is open.

  * `Call.Spelled`, and `Spelled` of what calls are made of: a JSON value says what a call is;
  * `Instance.decoder_of_spelled`, `Value.decoder_of_spelled`: a spelling is decoded as what it
    spells, by induction on the ancestors and on the tables;
  * `Call.decodeText_of_spelled`: so is every text of a spelling of a call.
-/
import Reenact.Json.Capture
import Reenact.Proofs.Decoding
import Reenact.Proofs.JsonTexts

namespace Reenact

open Json Json.Fields

/-! ## Parts of values -/

/-- A number of a JSON text that is rounded to `x`, with its sign. -/
def Binary64.Spelled (x : Binary64) (j : Json) : Prop :=
  ∃ n, j = .number n ∧ match n with
    | .integer i => x.isNegative = decide (i < 0) ∧ x.isFinite = true ∧ x.IsRounded i
    | .real y => y = x

/-- A string. -/
def TextSpelled (s : String) (j : Json) : Prop := j = .text s

def Vector3.Spelled (v : Vector3) : Json → Prop :=
  RecordSpelled [⟨"x", v.x.Spelled, False⟩, ⟨"y", v.y.Spelled, False⟩, ⟨"z", v.z.Spelled, False⟩]

def Color3.Spelled (c : Color3) : Json → Prop :=
  RecordSpelled [⟨"r", c.r.Spelled, False⟩, ⟨"g", c.g.Spelled, False⟩, ⟨"b", c.b.Spelled, False⟩]

def ColorKeypoint.Spelled (k : ColorKeypoint) : Json → Prop :=
  RecordSpelled [⟨"time", k.time.Spelled, False⟩, ⟨"value", k.value.Spelled, False⟩]

/-- The envelope may be left out if it is zero. -/
def NumberKeypoint.Spelled (k : NumberKeypoint) : Json → Prop :=
  RecordSpelled [⟨"time", k.time.Spelled, False⟩, ⟨"value", k.value.Spelled, False⟩,
    ⟨"envelope", k.envelope.Spelled, k.envelope = .zero⟩]

/-! ## Instances -/

def Role.tag : Role → String
  | plain => "Plain" | dataModel => "DataModel" | workspace => "Workspace" | service => "Service"
  | localPlayer => "LocalPlayer"

/-- The fields of an instance; a plain role may be left out. -/
def Node.fields (node : Node) (parent : FieldSpelling) : List FieldSpelling :=
  [⟨"debug_id", TextSpelled node.debugId, False⟩, ⟨"name", TextSpelled node.name, False⟩,
    ⟨"class_name", TextSpelled node.className, False⟩,
    ⟨"role", ConstantSpelled [node.role.tag], node.role = .plain⟩, parent]

/-- An object and those above it, each as the parent of the one below it; that of the last one is
    null, or left out. -/
def Node.SpelledUnder : List Node → Node → Json → Prop
  | [], node => RecordSpelled (node.fields ⟨"parent", (· = .null), True⟩)
  | above :: rest, node => RecordSpelled (node.fields ⟨"parent", above.SpelledUnder rest, False⟩)

def Instance.Spelled (i : Instance) : Json → Prop := i.toNode.SpelledUnder i.ancestors

/-! ## Values -/

mutual

/-- **What spells a value.**  The plain forms have two names. -/
def Value.Spelled : Value → Json → Prop
  | .nil => ConstantSpelled ["Nil", "nil"]
  | .boolean b => VariantSpelled ["Boolean", "boolean"] (· = .boolean b)
  | .number x => VariantSpelled ["Number", "number"] x.Spelled
  | .text s => VariantSpelled ["String", "string"] (TextSpelled s)
  | .table pairs => VariantSpelled ["Table", "table"] fun j =>
      ∃ items, j = .array items ∧ Value.pairsSpelled pairs items
  | .reference i => VariantSpelled ["Instance", "instance"] i.Spelled
  | .dateTime millis => VariantSpelled ["DateTime"] <|
      RecordSpelled [⟨"unix_timestamp_millis", (· = .number (.integer millis.toInt)), False⟩]
  | .pathWaypoint position action => VariantSpelled ["PathWaypoint"] <|
      RecordSpelled [⟨"position", position.Spelled, False⟩, ⟨"action", TextSpelled action, False⟩]
  | .ray origin direction => VariantSpelled ["Ray"] <|
      RecordSpelled [⟨"origin", origin.Spelled, False⟩, ⟨"direction", direction.Spelled, False⟩]
  | .region center size => VariantSpelled ["Region3"] <|
      RecordSpelled [⟨"position", center.Spelled, False⟩, ⟨"size", size.Spelled, False⟩]
  | .colorSequence keypoints =>
      VariantSpelled ["ColorSequence"] (ListSpelled ColorKeypoint.Spelled keypoints)
  | .numberSequence keypoints =>
      VariantSpelled ["NumberSequence"] (ListSpelled NumberKeypoint.Spelled keypoints)
  | .colorKeypoint keypoint => VariantSpelled ["ColorSequenceKeypoint"] keypoint.Spelled
  | .numberKeypoint keypoint => VariantSpelled ["NumberSequenceKeypoint"] keypoint.Spelled
  | .other typeName source => VariantSpelled ["Other"] <|
      RecordSpelled [⟨"type_name", TextSpelled typeName, False⟩,
        ⟨"text", TextSpelled source, False⟩]

/-- The pairs of a table, each an array of a key and a value. -/
def Value.pairsSpelled : List (Value × Value) → List Json → Prop
  | [], items => items = []
  | (key, value) :: rest, items => ∃ k v more, items = .array [k, v] :: more ∧
      key.Spelled k ∧ value.Spelled v ∧ Value.pairsSpelled rest more

end

/-! ## Calls -/

def Caller.tag : Caller → String
  | game => "Game" | executor => "Executor"

/-- **What spells a call.** -/
def Call.Spelled (c : Call) : Json → Prop :=
  RecordSpelled [⟨"script", OptionSpelled Instance.Spelled c.script, c.script = none⟩,
    ⟨"arguments", ListSpelled Value.Spelled c.arguments, c.arguments = []⟩,
    ⟨"remote", c.remote.Spelled, False⟩,
    ⟨"remote_kind", ConstantSpelled [c.remoteKind.name], False⟩,
    ⟨"return_value", OptionSpelled Value.Spelled c.returnValue, c.returnValue = none⟩,
    ⟨"caller", ConstantSpelled [c.caller.tag], c.caller = .game⟩]

/-! ## Decoding -/

theorem realDecoder_of_spelled {x : Binary64} {j : Json} (h : x.Spelled j) :
    realDecoder j = .ok x := by
  obtain ⟨n, rfl, hn⟩ := h
  cases n with
  | real y => exact congrArg _ hn
  | integer i =>
    obtain ⟨hsign, -, hrounded⟩ := hn
    have hvalue : (i : ℚ) = Binary64.decimal x.isNegative i.natAbs 0 := by
      rw [hsign, Binary64.decimal, Binary64.sign, zpow_zero, mul_one, Nat.cast_natAbs]
      rcases lt_or_ge i 0 with hi | hi
      · simp [hi, abs_of_neg hi]
      · simp [Int.not_lt.2 hi, abs_of_nonneg hi]
    rw [hvalue, ← Binary64.eq_ofDecimal_iff, hsign] at hrounded
    exact congrArg _ hrounded.symm

/-- Every numeral whose value is rounded to a finite number, with its sign, is a spelling of it. -/
theorem Binary64.exists_spelled {x : Binary64} {n : Numeral} (hsign : x.isNegative = n.negative)
    (hfinite : x.isFinite = true) (hrounded : x.IsRounded n.value) :
    ∃ number, n.Denotes number ∧ x.Spelled (.number number) := by
  by_cases hinteger : n.IsInteger
  · refine ⟨.integer _, ⟨hinteger, rfl⟩, _, rfl, ?_, hfinite, ?_⟩
    · rw [hsign, Numeral.negative_eq_of_isInteger hinteger]
    · rwa [← Numeral.value_of_isInteger hinteger]
  · exact ⟨.real x, ⟨hinteger, hsign, hfinite, hrounded⟩, _, rfl, rfl⟩

theorem textDecoder_of_spelled {s : String} {j : Json} (h : TextSpelled s j) :
    textDecoder j = .ok s := by
  rw [h]
  rfl

section fields

variable {name : String}

theorem real_reads (x : Binary64) :
    (required name realDecoder).Reads [⟨name, x.Spelled, False⟩] x :=
  required_reads fun _ => realDecoder_of_spelled

theorem text_reads (s : String) :
    (required name textDecoder).Reads [⟨name, TextSpelled s, False⟩] s :=
  required_reads fun _ => textDecoder_of_spelled

end fields

theorem Vector3.ofJson_of_spelled {v : Vector3} {j : Json} (h : v.Spelled j) :
    Vector3.ofJson j = .ok v :=
  record_of_spelled (((real_reads v.x).and ((real_reads v.y).and (real_reads v.z)
    (by simp)) (by simp)).map _) h _

theorem Color3.ofJson_of_spelled {c : Color3} {j : Json} (h : c.Spelled j) :
    Color3.ofJson j = .ok c :=
  record_of_spelled (((real_reads c.r).and ((real_reads c.g).and (real_reads c.b)
    (by simp)) (by simp)).map _) h _

theorem ColorKeypoint.ofJson_of_spelled {k : ColorKeypoint} {j : Json} (h : k.Spelled j) :
    ColorKeypoint.ofJson j = .ok k :=
  record_of_spelled (((real_reads k.time).and
    (required_reads fun _ => Color3.ofJson_of_spelled) (by simp)).map _) h _

theorem NumberKeypoint.ofJson_of_spelled {k : NumberKeypoint} {j : Json} (h : k.Spelled j) :
    NumberKeypoint.ofJson j = .ok k :=
  record_of_spelled (((real_reads k.time).and ((real_reads k.value).and
    (optional_reads (fun _ => realDecoder_of_spelled) id) (by simp)) (by simp)).map _) h _

theorem Role.ofJson_of_spelled {r : Role} {j : Json} (h : ConstantSpelled [r.tag] j) :
    Role.ofJson j = .ok r := by
  refine choice_of_constant ?_ h
  cases r <;> simp [Role.tag, Variant.find, Variant.constant]

/-- One step up from an instance to its parent. -/
theorem Instance.decoder_succ_of_spelled {room : Nat} {node : Node} {parent : Option Instance}
    {spells : Json → Prop} {omittable : Prop} {j : Json}
    (hj : RecordSpelled (node.fields ⟨"parent", spells, omittable⟩) j)
    (hdecode : ∀ j, spells j → nullable (Instance.decoder room) j = .ok parent)
    (homitted : omittable → parent = none) :
    Instance.decoder (room + 1) j = .ok (Instance.ofParent? node parent) :=
  record_of_spelled (((text_reads node.debugId).and ((text_reads node.name).and
    ((text_reads node.className).and
      ((optional_reads (fun _ => Role.ofJson_of_spelled) id).and
        (optional_reads hdecode homitted) (by simp)) (by simp)) (by simp)) (by simp)).map _) hj _

theorem Node.not_spelledUnder_null {above : List Node} {node : Node} :
    ¬node.SpelledUnder above .null := by
  cases above <;> exact not_recordSpelled_null _

/-- An instance is decoded if there is room for its ancestors: each is the parent of the one before
    it. -/
theorem Instance.decoder_of_spelled {above : List Node} {node : Node} {room : Nat} {j : Json}
    (h : node.SpelledUnder above j) (hroom : above.length < room) :
    Instance.decoder room j = .ok { node with ancestors := above } := by
  induction above generalizing node room j with
  | nil =>
    obtain ⟨room, rfl⟩ := Nat.exists_eq_add_one_of_ne_zero (Nat.ne_zero_of_lt hroom)
    show _ = Except.ok (Instance.ofParent? node none)
    refine Instance.decoder_succ_of_spelled h ?_ fun _ => rfl
    rintro j rfl
    rfl
  | cons next rest ih =>
    obtain ⟨room, rfl⟩ := Nat.exists_eq_add_one_of_ne_zero (Nat.ne_zero_of_lt hroom)
    show _ = Except.ok (Instance.ofParent? node (some { next with ancestors := rest }))
    refine Instance.decoder_succ_of_spelled h ?_ False.elim
    intro j hj
    have hne : j ≠ .null := by
      rintro rfl
      exact Node.not_spelledUnder_null hj
    rw [nullable_of_ne hne, ih hj (Nat.lt_of_succ_lt_succ hroom)]
    rfl

/-- Each ancestor is in an object of its own. -/
theorem Node.length_lt_depth {above : List Node} {node : Node} {j : Json}
    (h : node.SpelledUnder above j) : above.length < j.depth := by
  induction above generalizing node j with
  | nil =>
    obtain ⟨members, rfl, -⟩ := h
    exact Nat.succ_pos _
  | cons next rest ih =>
    obtain ⟨members, rfl, hmembers⟩ := h
    obtain ⟨k, hvalues, hk⟩ := (hmembers ⟨"parent", next.SpelledUnder rest, False⟩
      (by simp [Node.fields])).resolve_right And.right
    have hdepth := depth_le_of_mem_valuesOf (hvalues ▸ List.mem_singleton_self k)
    have := ih hk
    rw [depth, List.length_cons]
    omega

theorem Instance.ofJson_of_spelled {i : Instance} {j : Json} (h : i.Spelled j) :
    Instance.ofJson j = .ok i :=
  Instance.decoder_of_spelled h ((Node.length_lt_depth h).trans (Nat.lt_succ_self _))

/-! ## Values -/

theorem integerDecoder_of_spelled (i : Int64) :
    integerDecoder (.number (.integer i.toInt)) = .ok i := by
  have hlt : i.toInt < 0x8000000000000000 := i.toInt_lt
  rw [integerDecoder, if_pos hlt, Int64.ofInt_toInt]

theorem vector_reads {name : String} (v : Vector3) :
    (required name Vector3.ofJson).Reads [⟨name, v.Spelled, False⟩] v :=
  required_reads fun _ => Vector3.ofJson_of_spelled

theorem map_eq_ok {α β : Type} {decoded : Except Failure α} {a : α} (h : decoded = .ok a)
    (make : α → β) : make <$> decoded = .ok (make a) := by
  rw [h]
  rfl

mutual

/-- **A value is decoded from each of its spellings**, if there is room for its tables. -/
theorem Value.decoder_of_spelled : ∀ (v : Value) {room : Nat} {j : Json}, v.Spelled j →
    j.depth < room → Value.decoder room j = .ok v
  | _, 0, _, _, hroom => absurd hroom (Nat.not_lt_zero _)
  | .nil, _ + 1, _, h, _ => choice_of_constant (Variant.find_two rfl rfl) h
  | .boolean _, _ + 1, _, h, _ => choice_of_variant (Variant.find_two rfl rfl) h
    fun _ hc _ => map_eq_ok (by rw [hc]; rfl) _
  | .number _, _ + 1, _, h, _ => choice_of_variant (Variant.find_two rfl rfl) h
    fun _ hc _ => map_eq_ok (realDecoder_of_spelled hc) _
  | .text _, _ + 1, _, h, _ => choice_of_variant (Variant.find_two rfl rfl) h
    fun _ hc _ => map_eq_ok (textDecoder_of_spelled hc) _
  | .table pairs, room + 1, _, h, hroom => choice_of_variant (Variant.find_two rfl rfl) h
    fun content hc hdepth => by
      obtain ⟨items, rfl, hitems⟩ := hc
      rw [depth] at hdepth
      exact map_eq_ok (Value.pairs_of_spelled pairs hitems (by omega)) _
  | .reference _, _ + 1, _, h, _ => choice_of_variant (Variant.find_two rfl rfl) h
    fun _ hc _ => map_eq_ok (Instance.ofJson_of_spelled hc) _
  | .dateTime millis, _ + 1, _, h, _ => choice_of_variant (Variant.find_one rfl) h
    fun _ hc _ => record_of_spelled ((required_reads fun j hj => by
      rw [hj]; exact integerDecoder_of_spelled millis).map _) hc _
  | .pathWaypoint position action, _ + 1, _, h, _ => choice_of_variant (Variant.find_one rfl) h
    fun _ hc _ => record_of_spelled
      (((vector_reads position).and (text_reads action) (by simp)).map _) hc _
  | .ray origin direction, _ + 1, _, h, _ => choice_of_variant (Variant.find_one rfl) h
    fun _ hc _ => record_of_spelled
      (((vector_reads origin).and (vector_reads direction) (by simp)).map _) hc _
  | .region center size, _ + 1, _, h, _ => choice_of_variant (Variant.find_one rfl) h
    fun _ hc _ => record_of_spelled
      (((vector_reads center).and (vector_reads size) (by simp)).map _) hc _
  | .colorSequence _, _ + 1, _, h, _ => choice_of_variant (Variant.find_one rfl) h
    fun _ hc _ => map_eq_ok (listDecoder_of_spelled
      (fun k j => ColorKeypoint.ofJson_of_spelled (k := k) (j := j)) hc) _
  | .numberSequence _, _ + 1, _, h, _ => choice_of_variant (Variant.find_one rfl) h
    fun _ hc _ => map_eq_ok (listDecoder_of_spelled
      (fun k j => NumberKeypoint.ofJson_of_spelled (k := k) (j := j)) hc) _
  | .colorKeypoint _, _ + 1, _, h, _ => choice_of_variant (Variant.find_one rfl) h
    fun _ hc _ => map_eq_ok (ColorKeypoint.ofJson_of_spelled hc) _
  | .numberKeypoint _, _ + 1, _, h, _ => choice_of_variant (Variant.find_one rfl) h
    fun _ hc _ => map_eq_ok (NumberKeypoint.ofJson_of_spelled hc) _
  | .other typeName source, _ + 1, _, h, _ => choice_of_variant (Variant.find_one rfl) h
    fun _ hc _ => record_of_spelled
      (((text_reads typeName).and (text_reads source) (by simp)).map _) hc _

theorem Value.pairs_of_spelled : ∀ (pairs : List (Value × Value)) {room : Nat} {items : List Json},
    Value.pairsSpelled pairs items → itemsDepth items ≤ room →
      items.mapM (pairDecoder (Value.decoder room) (Value.decoder room)) = .ok pairs
  | [], _, _, h, _ => by
    cases h
    rfl
  | (key, value) :: rest, room, items, h, hroom => by
    obtain ⟨k, v, more, rfl, hk, hv, hrest⟩ := h
    simp only [itemsDepth, depth] at hroom
    rw [List.mapM_cons, pairDecoder, Value.decoder_of_spelled key hk (by omega),
      Value.decoder_of_spelled value hv (by omega),
      Value.pairs_of_spelled rest hrest (by omega)]
    rfl

end

theorem Value.ofJson_of_spelled {v : Value} {j : Json} (h : v.Spelled j) :
    Value.ofJson j = .ok v :=
  Value.decoder_of_spelled v h (Nat.lt_succ_self _)

theorem Value.not_spelled_null (v : Value) : ¬v.Spelled .null := by
  intro h
  cases v with
  | nil =>
    obtain ⟨name, -, h | h⟩ := h <;> cases h
  | _ =>
    obtain ⟨name, -, content, h, -⟩ := h
    cases h

/-! ## Calls -/

theorem RemoteKind.ofJson_of_spelled {k : RemoteKind} {j : Json} (h : ConstantSpelled [k.name] j) :
    RemoteKind.ofJson j = .ok k := by
  refine choice_of_constant ?_ h
  cases k <;> exact Variant.find_one rfl

theorem Caller.ofJson_of_spelled {c : Caller} {j : Json} (h : ConstantSpelled [c.tag] j) :
    Caller.ofJson j = .ok c := by
  refine choice_of_constant ?_ h
  cases c <;> exact Variant.find_one rfl

theorem Call.ofJson_of_spelled {c : Call} {j : Json} (h : c.Spelled j) :
    Call.ofJson j = .ok c := by
  have hscript : ∀ j, OptionSpelled Instance.Spelled c.script j →
      nullable Instance.ofJson j = .ok c.script := fun _ =>
    nullable_of_spelled (fun _ => Instance.ofJson_of_spelled) fun _ => Node.not_spelledUnder_null
  have hreturn : ∀ j, OptionSpelled Value.Spelled c.returnValue j →
      nullable Value.ofJson j = .ok c.returnValue := fun _ =>
    nullable_of_spelled (fun _ => Value.ofJson_of_spelled) Value.not_spelled_null
  have harguments : ∀ j, ListSpelled Value.Spelled c.arguments j →
      listDecoder Value.ofJson j = .ok c.arguments := fun _ =>
    listDecoder_of_spelled fun v j => Value.ofJson_of_spelled (v := v) (j := j)
  exact record_of_spelled (((optional_reads hscript id).and
    ((optional_reads harguments id).and
      ((required_reads fun _ => Instance.ofJson_of_spelled).and
        ((required_reads fun _ => RemoteKind.ofJson_of_spelled).and
          ((optional_reads hreturn id).and
            (optional_reads (fun _ => Caller.ofJson_of_spelled) id)
            (by simp)) (by simp)) (by simp)) (by simp)) (by simp)).map _) h _

/-- **A call is decoded from every text that spells it**: each JSON text of a value that says what
    the call is, with at most 127 arrays and objects around any part of it. -/
theorem Call.decodeText_of_spelled {c : Call} {j : Json} {text : String} (hc : c.Spelled j)
    (htext : Written (.value j) text.toList) (hdepth : j.depth ≤ 127) :
    Json.decodeText Call.ofJson text = .ok c := by
  have hread : ofText? deepestText text = some j := ofText?_of_written htext hdepth
  rw [decodeText, hread]
  exact Call.ofJson_of_spelled hc

/-- Members in another order and a further one, a name in lower case, a number with an exponent, and
    fields left out. -/
theorem Call.decodeText_of_spelled_hit :
    Json.decodeText Call.ofJson ("\x7b\"x\":1, \"remote_kind\":\"RemoteEvent\"," ++
      "\"remote\":\x7b\"class_name\":\"RemoteEvent\",\"name\":\"Hit\",\"debug_id\":\"7\"\x7d," ++
      "\"arguments\":[\x7b\"number\":25e-2\x7d,\"nil\"]\x7d") =
    .ok {
      arguments := [.number ⟨0x3FD0000000000000⟩, .nil]
      remote := { debugId := "7", name := "Hit", className := "RemoteEvent" }
      remoteKind := .remoteEvent } := by
  have hone : Numeral.Denotes ⟨false, ['1'], [], none, ⟨by decide, rfl⟩, by decide, rfl⟩
      (.integer 1) := by
    refine ⟨⟨rfl, rfl, ?_⟩, ?_⟩ <;> decide
  have hquarter : Numeral.Denotes ⟨false, ['2', '5'], [],
      some ⟨'e', ['-'], ['2'], by decide, by decide, ⟨by decide, rfl⟩⟩,
      ⟨by decide, rfl⟩, by decide, rfl⟩ (.real ⟨0x3FD0000000000000⟩) := by
    refine ⟨fun h => (nomatch h.2.1), by decide, by decide, ?_⟩
    exact (Binary64.eq_ofDecimal_iff (x := ⟨0x3FD0000000000000⟩) 25 (-2)).1 (by decide +kernel)
  have hspace : IsBlank [' '] := by simp [IsBlank]
  have hblank : IsBlank [] := by simp [IsBlank]
  have hremote := Written.object <|
    .moreMembers (.plainMember "class_name" (by decide) (.plainText "RemoteEvent" (by decide))) <|
    .moreMembers (.plainMember "name" (by decide) (.plainText "Hit" (by decide))) <|
    .lastMember (.plainMember "debug_id" (by decide) (.plainText "7" (by decide)))
  have harguments := Written.array <|
    .item (.object (.lastMember (.plainMember "number" (by decide) (.number hquarter)))) <|
    .lastItem (.plainText "nil" (by decide))
  have hcall := Written.object <|
    .moreMembers (.plainMember "x" (by decide) (.number hone)) <|
    .moreMembers (.blanks hspace (.plainMember "remote_kind" (by decide)
      (.plainText "RemoteEvent" (by decide))) hblank) <|
    .moreMembers (.plainMember "remote" (by decide) hremote) <|
    .lastMember (.plainMember "arguments" (by decide) harguments)
  refine Call.decodeText_of_spelled ⟨_, rfl, ?_⟩
    (by simpa [Numeral.text, Numeral.tail, Exponent.text] using hcall) (by decide)
  have hnumber : Value.Spelled (.number ⟨0x3FD0000000000000⟩)
      (.object [("number", .number (.real ⟨0x3FD0000000000000⟩))]) :=
    ⟨"number", by decide, _, rfl, _, rfl, rfl⟩
  have hnil : Value.Spelled .nil (.text "nil") := ⟨"nil", by decide, .inl rfl⟩
  have hremote : Instance.Spelled { debugId := "7", name := "Hit", className := "RemoteEvent" }
      (.object [("class_name", .text "RemoteEvent"), ("name", .text "Hit"),
        ("debug_id", .text "7")]) :=
    ⟨_, rfl, by simp [Node.fields, FieldSpelling.In, valuesOf, TextSpelled]⟩
  simp [FieldSpelling.In, valuesOf, ConstantSpelled, RemoteKind.name, ListSpelled, hnumber, hnil,
    hremote]

end Reenact
