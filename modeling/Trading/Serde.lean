import Mathlib.Data.List.Nodup
import Trading.Domain

/-!
# Serialization of dataclasses

Encoding looks at the value, decoding at the value first and then at the type of
the field. A field's type is one of a few, or one optional of it in either of its two
spellings; typing merges the optionals of an optional.
-/
namespace Trading.Serde

/-- What `json.loads` returns for the texts that the encoder writes. -/
inductive Json where
  | null
  | bool (b : Bool)
  | int (i : Int)
  | str (s : String)
  | obj (entries : List (String × Json))

/-- A Python object; what came out of a JSON text and was left alone is `raw`. -/
inductive PyVal (D T : Type) where
  | raw (j : Json)
  | decimal (d : D)
  | datetime (t : T)
  | member (cls value : String)
  | instance (cls : String) (fields : List (String × PyVal D T))

def decimalMarker : String := "__decimal__"
def datetimeMarker : String := "__datetime__"

/-- The parts of the standard library that turn values into texts and back. -/
structure Texts (D T P : Type) where
  str : D → String
  decimal : Json → Except PyError D
  decimal_str : ∀ d, decimal (.str (str d)) = .ok d
  isoformat : T → String
  fromisoformat : Json → Except PyError T
  fromisoformat_isoformat : ∀ t, fromisoformat (.str (isoformat t)) = .ok t
  dumps : Json → P
  loads : P → Except PyError Json
  loads_dumps : ∀ j, loads (dumps j) = .ok j
  repr : Json → String

/-- `Optional[T]` or `T | None`. -/
inductive Spelling where
  | optional | unionNone
  deriving DecidableEq, Repr

/-- A field is not named like a marker. -/
abbrev FieldName := { s : String // s ≠ decimalMarker ∧ s ≠ datetimeMarker }

mutual

inductive FieldType where
  | str | int | bool | decimal | datetime
  | enum (cls : String) (values : List String)
  | record (cls : String) (fields : FieldList)

inductive FieldList where
  | nil
  | cons (name : FieldName) (optional : Option Spelling) (type : FieldType) (rest : FieldList)

end

def FieldList.names : FieldList → List String
  | .nil => []
  | .cons name _ _ rest => name :: rest.names

mutual

/-- The fields of every record have names of their own. -/
def FieldType.Distinct : FieldType → Prop
  | .record _ fields => fields.Distinct
  | _ => True

def FieldList.Distinct : FieldList → Prop
  | .nil => True
  | .cons name _ type rest => ↑name ∉ rest.names ∧ type.Distinct ∧ rest.Distinct

end

/-- A frozen dataclass. -/
structure Dataclass where
  cls : String
  fields : FieldList
  distinct : fields.Distinct

section Values

variable {D T P : Type}

mutual

/-- `v` is a value of the type. -/
def FieldType.Holds : FieldType → PyVal D T → Prop
  | .str, v => ∃ s, v = .raw (.str s)
  | .int, v => ∃ i, v = .raw (.int i)
  | .bool, v => ∃ b, v = .raw (.bool b)
  | .decimal, v => ∃ d, v = .decimal d
  | .datetime, v => ∃ t, v = .datetime t
  | .enum cls values, v => ∃ value ∈ values, v = .member cls value
  | .record cls fields, v => ∃ vs, v = .instance cls vs ∧ fields.Hold vs

/-- The values of the fields, in their order; an optional one may be `None`. -/
def FieldList.Hold : FieldList → List (String × PyVal D T) → Prop
  | .nil, vs => vs = []
  | .cons name optional type rest, vs => ∃ v vs', vs = (↑name, v) :: vs' ∧
      (type.Holds v ∨ optional.isSome ∧ v = .raw .null) ∧ rest.Hold vs'

end

mutual

def toJsonable (texts : Texts D T P) : PyVal D T → Json
  | .raw j => j
  | .decimal d => .obj [(decimalMarker, .str (texts.str d))]
  | .datetime t => .obj [(datetimeMarker, .str (texts.isoformat t))]
  | .member _ value => .str value
  | .instance _ fields => .obj (fieldsToJsonable texts fields)

def fieldsToJsonable (texts : Texts D T P) : List (String × PyVal D T) → List (String × Json)
  | [] => []
  | (name, v) :: fields => (name, toJsonable texts v) :: fieldsToJsonable texts fields

end

/-- `type(obj).__name__`, for the objects that are no dataclass instances. -/
def PyVal.typeName : PyVal D T → String
  | .raw .null => "NoneType"
  | .raw (.bool _) => "bool"
  | .raw (.int _) => "int"
  | .raw (.str _) => "str"
  | .raw (.obj _) => "dict"
  | .decimal _ => "Decimal"
  | .datetime _ => "datetime"
  | .member cls _ => cls
  | .instance cls _ => cls

def encodeDataclass (texts : Texts D T P) (obj : PyVal D T) : Except PyError P :=
  match obj with
  | .instance _ _ => .ok (texts.dumps (toJsonable texts obj))
  | _ => .error ⟨"TypeError",
      "encode_dataclass requires a dataclass instance, got " ++ obj.typeName⟩

/-- `value[name]`. -/
def Json.item (j : Json) (name : String) : Except PyError Json :=
  match j with
  | .obj entries =>
    match entries.lookup name with
    | some value => .ok value
    | none => .error ⟨"KeyError", "'" ++ name ++ "'"⟩
  | .str _ => .error ⟨"TypeError", "string indices must be integers, not 'str'"⟩
  | .int _ => .error ⟨"TypeError", "'int' object is not subscriptable"⟩
  | .bool _ => .error ⟨"TypeError", "'bool' object is not subscriptable"⟩
  | .null => .error ⟨"TypeError", "'NoneType' object is not subscriptable"⟩

/-- The steps of decoding that do not ask for the type. -/
def rehydrate (texts : Texts D T P) : Json → Option (Except PyError (PyVal D T))
  | .null => some (.ok (.raw .null))
  | .obj entries =>
    match entries.lookup decimalMarker, entries.lookup datetimeMarker with
    | some value, _ => some ((texts.decimal value).map .decimal)
    | none, some value => some ((texts.fromisoformat value).map .datetime)
    | none, none => none
  | _ => none

/-- `target(value)` for an enum. -/
def enumOf (texts : Texts D T P) (cls : String) (values : List String) (j : Json) :
    Except PyError (PyVal D T) :=
  match j with
  | .str value =>
    if value ∈ values then .ok (.member cls value)
    else .error ⟨"ValueError", texts.repr j ++ " is not a valid " ++ cls⟩
  | _ => .error ⟨"ValueError", texts.repr j ++ " is not a valid " ++ cls⟩

mutual

def fromJsonable (texts : Texts D T P) : FieldType → Json → Except PyError (PyVal D T)
  | .enum cls values, j => (rehydrate texts j).getD (enumOf texts cls values j)
  | .record cls fields, j =>
    (rehydrate texts j).getD ((fieldsFromJsonable texts fields j).map (.instance cls))
  | _, j => (rehydrate texts j).getD (.ok (.raw j))

/-- The origin of `T | None` is `types.UnionType` and not `Union`, so a value of it is
returned as it is. -/
def fieldsFromJsonable (texts : Texts D T P) :
    FieldList → Json → Except PyError (List (String × PyVal D T))
  | .nil, _ => .ok []
  | .cons name optional type rest, j => do
    let value ← j.item name
    let v ← match optional with
      | some .unionNone => (rehydrate texts value).getD (.ok (.raw value))
      | _ => fromJsonable texts type value
    let vs ← fieldsFromJsonable texts rest j
    pure ((↑name, v) :: vs)

end

def decodeDataclass (texts : Texts D T P) (target : Dataclass) (payload : P) :
    Except PyError (PyVal D T) := do
  let j ← texts.loads payload
  fromJsonable texts (.record target.cls target.fields) j

end Values

end Trading.Serde
