import Trading.Serde

/-!
# The round trip of a dataclass

Decoding recovers an instance unless a field spelled `T | None` holds a member of an
enum or an instance of a dataclass: such a value stays what the JSON text made of it.
-/
namespace Trading.Serde

variable {D T P : Type} (texts : Texts D T P)

/-- The types whose values cannot be told from their JSON. -/
def FieldType.typed : FieldType → Bool
  | .enum _ _ => true
  | .record _ _ => true
  | _ => false

mutual

/-- No field spelled `T | None`, at any depth, holds a value that only its type could restore. -/
def FieldType.Recovers : FieldType → PyVal D T → Prop
  | .record _ fields, .instance _ vs => fields.Recover vs
  | _, _ => True

def FieldList.Recover : FieldList → List (String × PyVal D T) → Prop
  | .cons _ optional type rest, (_, v) :: vs =>
    (if optional = some .unionNone then type.typed → v = .raw .null else type.Recovers v) ∧
      rest.Recover vs
  | _, _ => True

end

theorem hold_names (fields : FieldList) (vs : List (String × PyVal D T)) (h : fields.Hold vs) :
    vs.map Prod.fst = fields.names := by
  induction vs generalizing fields with
  | nil =>
    cases fields with
    | nil => rfl
    | cons name optional type rest =>
      obtain ⟨v, vs', hvs, -⟩ := h
      cases hvs
  | cons e vs ih =>
    cases fields with
    | nil => cases h
    | cons name optional type rest =>
      obtain ⟨v, vs', hvs, -, hrest⟩ := h
      cases hvs
      rw [List.map_cons, ih rest hrest, FieldList.names]

theorem names_fieldsToJsonable (vs : List (String × PyVal D T)) :
    (fieldsToJsonable texts vs).map Prod.fst = vs.map Prod.fst := by
  induction vs with
  | nil => rfl
  | cons e vs ih =>
    rw [fieldsToJsonable, List.map_cons, List.map_cons, ih]

/-- Every field is found under its name. -/
theorem lookup_fieldsToJsonable {vs : List (String × PyVal D T)} (h : (vs.map Prod.fst).Nodup)
    {name : String} {v : PyVal D T} (hv : (name, v) ∈ vs) :
    (fieldsToJsonable texts vs).lookup name = some (toJsonable texts v) := by
  induction vs with
  | nil => cases hv
  | cons e vs ih =>
    obtain ⟨hnew, hrest⟩ := List.nodup_cons.mp h
    rw [fieldsToJsonable, List.lookup_cons]
    cases List.mem_cons.mp hv with
    | inl he =>
      subst he
      simp
    | inr hv =>
      have hne : (name == e.1) = false := by
        rw [beq_eq_false_iff_ne]
        rintro rfl
        exact hnew (List.mem_map.mpr ⟨_, hv, rfl⟩)
      rw [hne]
      exact ih hrest hv

theorem lookup_eq_none {entries : List (String × Json)} {name : String}
    (h : name ∉ entries.map Prod.fst) : entries.lookup name = none := by
  rw [List.lookup_eq_none_iff]
  intro e he
  rw [bne_iff_ne]
  rintro rfl
  exact h (List.mem_map_of_mem he)

/-- Induction over a list of fields alone. -/
theorem FieldList.induction {motive : FieldList → Prop} (nil : motive .nil)
    (cons : ∀ name optional type rest, motive rest → motive (.cons name optional type rest))
    (fields : FieldList) : motive fields :=
  @FieldList.rec (fun _ => True) motive trivial trivial trivial trivial trivial
    (fun _ _ => trivial) (fun _ _ _ => trivial) nil
    (fun name optional type rest _ ih => cons name optional type rest ih) fields

/-- No field is named like a marker. -/
theorem FieldList.names_ne (fields : FieldList) :
    ∀ n ∈ fields.names, n ≠ decimalMarker ∧ n ≠ datetimeMarker := by
  apply FieldList.induction _ _ fields
  · intro n hn
    cases hn
  · intro name optional type rest ih n hn
    cases List.mem_cons.mp hn with
    | inl he => exact he ▸ name.2
    | inr hn => exact ih n hn

theorem FieldList.names_nodup (fields : FieldList) (h : fields.Distinct) :
    fields.names.Nodup := by
  revert h
  apply FieldList.induction _ _ fields
  · exact fun _ => List.nodup_nil
  · rintro name optional type rest ih ⟨hnew, -, hrest⟩
    exact List.nodup_cons.mpr ⟨hnew, ih hrest⟩

/-- The encoding of a record is not mistaken for a decimal or a time. -/
theorem rehydrate_record {fields : FieldList} {vs : List (String × PyVal D T)}
    (h : fields.Hold vs) : rehydrate texts (.obj (fieldsToJsonable texts vs)) = none := by
  have hnames : (fieldsToJsonable texts vs).map Prod.fst = fields.names :=
    (names_fieldsToJsonable texts vs).trans (hold_names fields vs h)
  have hdecimal : (fieldsToJsonable texts vs).lookup decimalMarker = none := by
    apply lookup_eq_none
    rw [hnames]
    exact fun hmem => (fields.names_ne _ hmem).1 rfl
  have hdatetime : (fieldsToJsonable texts vs).lookup datetimeMarker = none := by
    apply lookup_eq_none
    rw [hnames]
    exact fun hmem => (fields.names_ne _ hmem).2 rfl
  rw [rehydrate, hdecimal, hdatetime]

/-- `None` is decoded as `None`, whatever the type. -/
theorem fromJsonable_null (type : FieldType) :
    fromJsonable texts type .null = .ok (.raw .null : PyVal D T) := by
  cases type <;> rfl

theorem recovers_null (type : FieldType) : type.Recovers (.raw .null : PyVal D T) := by
  cases type <;> trivial

/-- A value that is not looked at by type: only marked and plain values come back. -/
theorem untyped_iff {type : FieldType} {v : PyVal D T} (h : type.Holds v) :
    (rehydrate texts (toJsonable texts v)).getD (.ok (.raw (toJsonable texts v))) = .ok v ↔
      type.typed = false := by
  cases type with
  | str =>
    obtain ⟨s, rfl⟩ := h
    exact iff_of_true rfl rfl
  | int =>
    obtain ⟨i, rfl⟩ := h
    exact iff_of_true rfl rfl
  | bool =>
    obtain ⟨b, rfl⟩ := h
    exact iff_of_true rfl rfl
  | decimal =>
    obtain ⟨d, rfl⟩ := h
    simp [toJsonable, rehydrate, texts.decimal_str, Except.map, FieldType.typed]
  | datetime =>
    obtain ⟨t, rfl⟩ := h
    simp [toJsonable, rehydrate, texts.fromisoformat_isoformat, Except.map, FieldType.typed,
      List.lookup_cons, decimalMarker, datetimeMarker]
  | enum cls values =>
    obtain ⟨value, -, rfl⟩ := h
    simp [toJsonable, rehydrate, FieldType.typed]
  | record cls fields =>
    obtain ⟨vs, rfl, hvs⟩ := h
    simp [toJsonable, rehydrate_record texts hvs, FieldType.typed]

theorem collect_iff {r : Except PyError (PyVal D T)}
    {rs : Except PyError (List (String × PyVal D T))} {name : String} {v : PyVal D T}
    {vs : List (String × PyVal D T)} :
    (r.bind fun v' => rs.bind fun vs' => .ok ((name, v') :: vs')) = .ok ((name, v) :: vs) ↔
      r = .ok v ∧ rs = .ok vs := by
  cases r with
  | error e => simp [Except.bind]
  | ok v' => cases rs <;> simp [Except.bind]

/-- Decoding one more field. -/
theorem fieldsFromJsonable_cons {name : FieldName} {optional : Option Spelling} {type : FieldType}
    {rest : FieldList} {entries : List (String × Json)} {v : PyVal D T}
    {vs : List (String × PyVal D T)}
    (hlookup : entries.lookup ↑name = some (toJsonable texts v)) :
    fieldsFromJsonable texts (.cons name optional type rest) (.obj entries) =
        .ok ((↑name, v) :: vs) ↔
      (if optional = some .unionNone then
        (rehydrate texts (toJsonable texts v)).getD (.ok (.raw (toJsonable texts v)))
        else fromJsonable texts type (toJsonable texts v)) = .ok v ∧
      fieldsFromJsonable texts rest (.obj entries) = .ok vs := by
  have hitem : Json.item (.obj entries) ↑name = .ok (toJsonable texts v) := by
    rw [Json.item, hlookup]
  rw [fieldsFromJsonable, hitem]
  cases optional with
  | none => exact collect_iff
  | some spelling => cases spelling <;> exact collect_iff

/-- One field: its value is recovered just when the field keeps the condition. -/
theorem field_iff {optional : Option Spelling} {type : FieldType} {v : PyVal D T}
    (hv : type.Holds v ∨ optional.isSome ∧ v = .raw .null)
    (ih : type.Holds v → (fromJsonable texts type (toJsonable texts v) = .ok v ↔ type.Recovers v)) :
    (if optional = some .unionNone then
        (rehydrate texts (toJsonable texts v)).getD (.ok (.raw (toJsonable texts v)))
        else fromJsonable texts type (toJsonable texts v)) = .ok v ↔
      if optional = some .unionNone then type.typed → v = .raw .null else type.Recovers v := by
  by_cases hunion : optional = some .unionNone
  · rw [if_pos hunion, if_pos hunion]
    cases hv with
    | inl hv =>
      rw [untyped_iff texts hv]
      cases type with
      | enum cls values =>
        obtain ⟨value, -, rfl⟩ := hv
        simp [FieldType.typed]
      | record cls fields =>
        obtain ⟨vs, rfl, -⟩ := hv
        simp [FieldType.typed]
      | _ => simp [FieldType.typed]
    | inr hnull =>
      rw [hnull.2]
      exact iff_of_true rfl fun _ => rfl
  · rw [if_neg hunion, if_neg hunion]
    cases hv with
    | inl hv => exact ih hv
    | inr hnull =>
      rw [hnull.2]
      exact iff_of_true (fromJsonable_null texts type) (recovers_null type)

/-- By induction on the type, over the fields of every record. -/
theorem fromJsonable_iff (type : FieldType) : ∀ v : PyVal D T, type.Distinct → type.Holds v →
    (fromJsonable texts type (toJsonable texts v) = .ok v ↔ type.Recovers v) := by
  have hplain : ∀ type : FieldType, type.typed = false → (∀ j, fromJsonable texts type j =
      (rehydrate texts j).getD (.ok (.raw j))) → (∀ v : PyVal D T, type.Recovers v) →
      ∀ v : PyVal D T, type.Distinct → type.Holds v →
        (fromJsonable texts type (toJsonable texts v) = .ok v ↔ type.Recovers v) := by
    intro type htyped hfrom hrecovers v _ hv
    rw [hfrom]
    exact iff_of_true ((untyped_iff texts hv).mpr htyped) (hrecovers v)
  refine @FieldType.rec
    (fun type => ∀ v : PyVal D T, type.Distinct → type.Holds v →
      (fromJsonable texts type (toJsonable texts v) = .ok v ↔ type.Recovers v))
    (fun fields => ∀ (vs : List (String × PyVal D T)) (entries : List (String × Json)),
      fields.Distinct → fields.Hold vs →
      (∀ name v, (name, v) ∈ vs → entries.lookup name = some (toJsonable texts v)) →
      (fieldsFromJsonable texts fields (.obj entries) = .ok vs ↔ fields.Recover vs))
    (hplain .str rfl (fun _ => rfl) fun _ => trivial)
    (hplain .int rfl (fun _ => rfl) fun _ => trivial)
    (hplain .bool rfl (fun _ => rfl) fun _ => trivial)
    (hplain .decimal rfl (fun _ => rfl) fun _ => trivial)
    (hplain .datetime rfl (fun _ => rfl) fun _ => trivial) ?_ ?_ ?_ ?_ type
  · -- an enum
    intro cls values v _ hv
    obtain ⟨value, hvalue, rfl⟩ := hv
    have hmember : fromJsonable texts (.enum cls values) (.str value) =
        .ok (.member cls value : PyVal D T) := by
      simp [fromJsonable, rehydrate, enumOf, hvalue]
    exact iff_of_true hmember trivial
  · -- a record
    intro cls fields ih v hdistinct hv
    obtain ⟨vs, rfl, hvs⟩ := hv
    have hnodup : (vs.map Prod.fst).Nodup := by
      rw [hold_names fields vs hvs]
      exact fields.names_nodup hdistinct
    have hfields := ih vs (fieldsToJsonable texts vs) hdistinct hvs
      fun name v hmem => lookup_fieldsToJsonable texts hnodup hmem
    rw [toJsonable, fromJsonable, rehydrate_record texts hvs, Option.getD_none, FieldType.Recovers,
      ← hfields]
    cases fieldsFromJsonable texts fields (.obj (fieldsToJsonable texts vs)) <;> simp [Except.map]
  · -- no more fields
    intro vs entries _ hvs _
    cases hvs
    exact iff_of_true rfl trivial
  · -- one more field
    intro name optional type rest ihtype ihrest vs entries hdistinct hvs hlookup
    obtain ⟨v, vs', rfl, hv, hrest⟩ := hvs
    obtain ⟨-, hdtype, hdrest⟩ := hdistinct
    rw [fieldsFromJsonable_cons texts (hlookup _ v List.mem_cons_self),
      field_iff texts hv (ihtype v hdtype),
      ihrest vs' entries hdrest hrest fun n w hw => hlookup n w (List.mem_cons_of_mem _ hw)]
    rfl

/-- Decoding the encoding gives the instance itself, each value in its type. -/
def RoundTrips (target : Dataclass) (x : PyVal D T) : Prop :=
  (encodeDataclass texts x).bind (decodeDataclass texts target) = .ok x

/-- An instance comes back if and only if no field spelled `T | None` holds a member of
an enum or an instance of a dataclass. -/
theorem roundTrips_iff_recovers (target : Dataclass) (x : PyVal D T)
    (hx : (FieldType.record target.cls target.fields).Holds x) :
    RoundTrips texts target x ↔ (FieldType.record target.cls target.fields).Recovers x := by
  have hrecovers := fromJsonable_iff texts (.record target.cls target.fields) x target.distinct hx
  obtain ⟨vs, rfl, hvs⟩ := hx
  have hdecode : (encodeDataclass texts (.instance target.cls vs)).bind
      (decodeDataclass texts target) =
      fromJsonable texts (.record target.cls target.fields)
        (toJsonable texts (.instance target.cls vs)) := by
    simp only [encodeDataclass, Except.bind, decodeDataclass, texts.loads_dumps, bind]
  rw [RoundTrips, hdecode]
  exact hrecovers

/-- Decimals and times that are their own texts, and JSON that is its own text. -/
def plainTexts : Texts String String Json where
  str := id
  decimal j := match j with
    | .str s => .ok s
    | _ => .error ⟨"TypeError", "argument must be a string"⟩
  decimal_str _ := rfl
  isoformat := id
  fromisoformat j := match j with
    | .str s => .ok s
    | _ => .error ⟨"TypeError", "fromisoformat: argument must be str"⟩
  fromisoformat_isoformat _ := rfl
  dumps := id
  loads := .ok
  loads_dumps _ := rfl
  repr _ := ""

/-- A dataclass with one optional side, in the given spelling. -/
def sided (spelling : Spelling) : Dataclass where
  cls := "Sided"
  fields := .cons ⟨"side", by decide⟩ (some spelling) (.enum "OrderSide" ["buy", "sell"]) .nil
  distinct := ⟨List.not_mem_nil, trivial, trivial⟩

def bought : PyVal String String :=
  .instance "Sided" [("side", .member "OrderSide" "buy")]

theorem holds_bought (spelling : Spelling) :
    (FieldType.record (sided spelling).cls (sided spelling).fields).Holds bought :=
  ⟨_, rfl, _, _, rfl, .inl ⟨"buy", List.mem_cons_self, rfl⟩, rfl⟩

/-- Spelled `Optional[OrderSide]` the side comes back. -/
theorem roundTrips_optional : RoundTrips plainTexts (sided .optional) bought :=
  (roundTrips_iff_recovers plainTexts (sided .optional) bought (holds_bought _)).mpr
    ⟨trivial, trivial⟩

/-- Spelled `OrderSide | None` a plain string comes back. -/
theorem union_member_returned_as_string :
    (FieldType.record (sided .unionNone).cls (sided .unionNone).fields).Holds bought ∧
      (encodeDataclass plainTexts bought).bind (decodeDataclass plainTexts (sided .unionNone)) =
        .ok (.instance "Sided" [("side", .raw (.str "buy"))]) ∧
      ¬ RoundTrips plainTexts (sided .unionNone) bought := by
  have hdecoded : (encodeDataclass plainTexts bought).bind
      (decodeDataclass plainTexts (sided .unionNone)) =
        .ok (.instance "Sided" [("side", .raw (.str "buy"))]) := rfl
  refine ⟨holds_bought _, hdecoded, fun h => ?_⟩
  rw [RoundTrips, hdecoded] at h
  simp [bought] at h

end Trading.Serde
