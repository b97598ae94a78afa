import ClusterMetrics.Json.Codec

/-! # Records as JSON

A record is an object with a member for each field, written in the order of the fields. A field may be
left out when it is written and keeps its default when it is missing. A plain record may also be given as
an array of its first fields, and ignores members it does not know; a flattened one, which holds the
fields of another record among its own, is given as an object only and reads even the members it drops. -/

namespace ClusterMetrics

/-- A field of a record and the member it is held in. -/
structure Field (σ : Type) where
  {τ : Type}
  name : String
  codec : Codec τ
  get : σ → τ
  set : τ → σ → σ
  /-- Values with which the member is left out. -/
  isOmitted : τ → Bool
  /-- Whether the member must be there to be read. -/
  isRequired : Bool

namespace Field
variable {σ ρ τ : Type}

/-- A field that may be missing, and is left out when it is written with certain values. -/
def omittable (name : String) (codec : Codec τ) (isOmitted : τ → Bool) (get : σ → τ) (set : τ → σ → σ) :
    Field σ :=
  { name, codec, get, set, isOmitted, isRequired := false }

/-- A field that is always written and may be missing. -/
def plain (name : String) (codec : Codec τ) (get : σ → τ) (set : τ → σ → σ) : Field σ :=
  omittable name codec (fun _ => false) get set

/-- A field that is always written and must be there. -/
def required (name : String) (codec : Codec τ) (get : σ → τ) (set : τ → σ → σ) : Field σ :=
  { name, codec, get, set, isOmitted := fun _ => false, isRequired := true }

/-- A counter that is left out when it is zero. -/
def counter (name : String) (get : σ → UInt64) (set : UInt64 → σ → σ) : Field σ :=
  omittable name .uint64 (· == 0) get set

/-- A text that is left out when it is empty. -/
def optionalText (name : String) (get : σ → String) (set : String → σ → σ) : Field σ :=
  omittable name .text String.isEmpty get set

/-- A value that is left out when there is none; `null` says the same. -/
def optional (name : String) (codec : Codec τ) (get : σ → Option τ) (set : Option τ → σ → σ) : Field σ :=
  omittable name codec.option Option.isNone get set

/-- A list that is left out when it is empty; `null` says the same. -/
def optionalList (name : String) (codec : Codec τ) (get : σ → List τ) (set : List τ → σ → σ) : Field σ :=
  omittable name codec.list.orDefault List.isEmpty get set

/-- A map that is left out when it is empty; `null` says the same. -/
def optionalMap (name : String) (codec : Codec τ) (get : σ → KeyMap τ) (set : KeyMap τ → σ → σ) :
    Field σ :=
  omittable name codec.keyMap.orDefault KeyMap.isEmpty get set

/-- The field of a record that is part of another one. -/
def within (get : ρ → σ) (set : σ → ρ → ρ) (f : Field σ) : Field ρ :=
  { name := f.name, codec := f.codec, isOmitted := f.isOmitted, isRequired := f.isRequired
    get := fun r => f.get (get r)
    set := fun v r => set (f.set v (get r)) r }

/-- The record with the field read from `j`. -/
def read (f : Field σ) (depth : Nat) (j : Json) (s : σ) : Option σ :=
  (f.codec.read depth j).map (f.set · s)

/-- The record as it is when the member is missing. -/
def missing (f : Field σ) (s : σ) : Option σ := if f.isRequired then none else some s

def write (f : Field σ) (s : σ) : Option (Bytes × Json) :=
  if f.isOmitted (f.get s) then none else some (Json.encodeText f.name, f.codec.write (f.get s))

end Field

/-- How the values of a record type are held in JSON. -/
structure Record (σ : Type) where
  /-- What missing fields are taken from. -/
  default : σ
  fields : List (Field σ)
  isFlattened : Bool

namespace Record
variable {σ : Type}

/-- The record with each field read from the member of its name, of which there may be only one. -/
def readMembers (fields : List (Field σ)) (depth : Nat) (members : List (String × Json)) (s : σ) :
    Option σ :=
  fields.foldlM (fun s f =>
    match members.filter (·.1 == f.name) with
    | [] => f.missing s
    | [(_, value)] => f.read depth value s
    | _ => none) s

/-- The record with its first fields read from the items. -/
def readItems (depth : Nat) : List (Field σ) → List Json → σ → Option σ
  | fields, [], s => fields.foldlM (fun s f => f.missing s) s
  | [], _ :: _, _ => none
  | f :: fields, item :: items, s => (f.read depth item s).bind (readItems depth fields items)

/-- Whether every member that no field is held in can be read. -/
def restIsReadable (fields : List (Field σ)) (depth : Nat) (members : List (String × Json)) : Bool :=
  members.all fun (key, value) => fields.any (·.name == key) || value.isReadable depth

def read (r : Record σ) : Nat → Json → Option σ
  | depth + 1, .object members => do
    let named ← Json.namedMembers? members
    if r.isFlattened && !restIsReadable r.fields depth named then none
    else readMembers r.fields depth named r.default
  | depth + 1, .array items => if r.isFlattened then none else readItems depth r.fields items r.default
  | _, _ => none

def write (r : Record σ) (s : σ) : Json := .object (r.fields.filterMap (·.write s))

def codec (r : Record σ) : Codec σ := ⟨r.read, r.write⟩

end Record

end ClusterMetrics
