import RustyPotato.Time

/-! # Stored values (`storage/memory.rs`) and errors (`error.rs`) -/

namespace RustyPotato

/-- The errors that the modelled functions build. -/
inductive RustyPotatoError where
  | notAnInteger (value : String)
  | integerOverflow
  | protocolError (message : String)
  | persistenceError (message : String) (recoverable : Bool)
  | storageError (message : String) (operation : Option String)
deriving DecidableEq

/-- The one kind of error that `snapshot_to_frames` and `rewrite_aof` return. -/
structure PersistenceError where
  message : String
  recoverable : Bool
deriving DecidableEq

def PersistenceError.toError (e : PersistenceError) : RustyPotatoError :=
  .persistenceError e.message e.recoverable

/-- `to_client_error`. -/
def RustyPotatoError.toClientError : RustyPotatoError → String
  | .notAnInteger value => "ERR value is not an integer or out of range: " ++ value
  | .integerOverflow => "ERR increment or decrement would overflow"
  | .protocolError message => "ERR protocol error: " ++ message
  | .storageError message _ => message
  | .persistenceError _ _ => "ERR internal server error"

/-- The `Display` of the errors. -/
def RustyPotatoError.display : RustyPotatoError → String
  | .notAnInteger value => "Value is not an integer or out of range: " ++ value
  | .integerOverflow => "increment or decrement would overflow"
  | .protocolError message => "Protocol error: " ++ message
  | .persistenceError message _ => "Persistence error: " ++ message
  | .storageError message _ => "Storage error: " ++ message

/-- `is_client_error`. An error of the protocol has a category of its own. -/
def RustyPotatoError.isClientError : RustyPotatoError → Bool
  | .notAnInteger _ | .integerOverflow => true
  | _ => false

/-- `HashMap<String, String>`. -/
abbrev Hash := Finmap fun _ : String => String

inductive ValueType where
  | string (b : Bytes)
  | integer (i : I64)
  | hash (h : Hash)
  | list (l : List String)
deriving DecidableEq

namespace ValueType

def asString : ValueType → String
  | string b => fromUtf8Lossy b
  | integer i => toString i.val
  | hash _ => "(hash)"
  | list _ => "(list)"

def asBytes : ValueType → Option Bytes
  | string b => some b
  | _ => none

def toInteger : ValueType → Except RustyPotatoError I64
  | integer i => .ok i
  | string b =>
    match fromUtf8 b with
    | none => .error (.notAnInteger (fromUtf8Lossy b))
    | some text =>
      match parseI64 text with
      | none => .error (.notAnInteger text)
      | some i => .ok i
  | hash _ => .error (.notAnInteger "hash")
  | list _ => .error (.notAnInteger "list")

def typeName : ValueType → String
  | string _ => "string"
  | integer _ => "integer"
  | hash _ => "hash"
  | list _ => "list"

/--
The size estimate and the element count, which `for_value` and `update_for_value` both compute.
-/
def sizeAndCount : ValueType → Nat × Nat
  | string b => (b.length, 1)
  | integer _ => (8, 1)
  | hash h => ((h.entries.map fun p => (utf8 p.1).length + (utf8 p.2).length).sum, h.entries.card)
  | list l => ((l.map fun s => (utf8 s).length).sum, l.length)

end ValueType

/-- A number becomes its decimal text, as in a rewritten log. -/
def printed : ValueType → ValueType
  | .integer i => .string (utf8 (toString i.val))
  | v => v

theorem toInteger_printed (i : I64) : (ValueType.string (utf8 (toString i.val))).toInteger =
    .ok i := by
  simp only [ValueType.toInteger, fromUtf8_utf8, parseI64_toString]

theorem asString_printed (i : I64) : (ValueType.string (utf8 (toString i.val))).asString =
    toString i.val :=
  fromUtf8Lossy_utf8 _

/-- Two values that print alike are the same, or a number and its text. -/
theorem printed_cases (v w : ValueType) (h : printed v = printed w) :
    v = w ∨ (∃ i, v = .integer i ∧ w = .string (utf8 (toString i.val))) ∨
      ∃ i, v = .string (utf8 (toString i.val)) ∧ w = .integer i := by
  cases v with
  | integer i =>
    cases w with
    | integer j =>
      have hi := toInteger_printed i
      rw [printed, printed] at h
      rw [h, toInteger_printed j, Except.ok.injEq] at hi
      exact .inl (by rw [hi])
    | string b => exact .inr (.inl ⟨i, rfl, h.symm⟩)
    | _ => cases h
  | string b =>
    cases w with
    | integer i => exact .inr (.inr ⟨i, h, rfl⟩)
    | string c => exact .inl h
    | _ => cases h
  | hash g =>
    cases w with
    | hash g' => exact .inl h
    | _ => cases h
  | list l =>
    cases w with
    | list l' => exact .inl h
    | _ => cases h

/-- Its `custom` map stays empty and is left out. -/
structure ValueMetadata where
  sizeBytes : Nat
  elementCount : Nat
  lastModified : Option Int
deriving DecidableEq

def ValueMetadata.forValue (c : Clock) (v : ValueType) : ValueMetadata where
  sizeBytes := v.sizeAndCount.1
  elementCount := v.sizeAndCount.2
  lastModified := some c.wall

def ValueMetadata.updateForValue (c : Clock) (m : ValueMetadata) (v : ValueType) : ValueMetadata :=
  { m with
    sizeBytes := v.sizeAndCount.1
    elementCount := v.sizeAndCount.2
    lastModified := some c.wall }

structure StoredValue where
  value : ValueType
  createdAt : Int
  lastAccessed : Int
  expiresAt : Option Int
  metadata : ValueMetadata
deriving DecidableEq

namespace StoredValue

def new (c : Clock) (v : ValueType) : StoredValue where
  value := v
  createdAt := c.now
  lastAccessed := c.now
  expiresAt := none
  metadata := .forValue c v

def newWithExpiration (c : Clock) (v : ValueType) (expiresAt : Int) : StoredValue :=
  { new c v with expiresAt := some expiresAt }

/-- Strictly past the deadline. -/
def isExpired (c : Clock) (e : StoredValue) : Bool :=
  match e.expiresAt with
  | some expires => decide (expires < c.now)
  | none => false

def touch (c : Clock) (e : StoredValue) : StoredValue := { e with lastAccessed := c.now }

def updateMetadata (c : Clock) (e : StoredValue) : StoredValue :=
  { e with metadata := e.metadata.updateForValue c e.value }

def setExpiration (e : StoredValue) (expiresAt : Int) : StoredValue :=
  { e with expiresAt := some expiresAt }

def removeExpiration (e : StoredValue) : StoredValue := { e with expiresAt := none }

def ttlSeconds (c : Clock) (e : StoredValue) : Option Int :=
  e.expiresAt.map fun expires => if c.now < expires then (expires - c.now) / nanosPerSec else -2

def ttlMillis (c : Clock) (e : StoredValue) : Option Int :=
  e.expiresAt.map fun expires =>
    if c.now < expires then min ((expires - c.now) / nanosPerMilli) (2 ^ 63 - 1) else -2

@[simp] theorem new_value (c : Clock) (v : ValueType) : (new c v).value = v := rfl
@[simp] theorem new_expiresAt (c : Clock) (v : ValueType) : (new c v).expiresAt = none := rfl
@[simp] theorem newWithExpiration_value (c : Clock) (v : ValueType) (d : Int) :
    (newWithExpiration c v d).value = v := rfl
@[simp] theorem newWithExpiration_expiresAt (c : Clock) (v : ValueType) (d : Int) :
    (newWithExpiration c v d).expiresAt = some d := rfl
@[simp] theorem touch_value (c : Clock) (e : StoredValue) : (e.touch c).value = e.value := rfl
@[simp] theorem touch_expiresAt (c : Clock) (e : StoredValue) :
    (e.touch c).expiresAt = e.expiresAt := rfl
@[simp] theorem updateMetadata_value (c : Clock) (e : StoredValue) :
    (e.updateMetadata c).value = e.value := rfl
@[simp] theorem updateMetadata_expiresAt (c : Clock) (e : StoredValue) :
    (e.updateMetadata c).expiresAt = e.expiresAt := rfl
@[simp] theorem setExpiration_value (e : StoredValue) (d : Int) :
    (e.setExpiration d).value = e.value := rfl
@[simp] theorem setExpiration_expiresAt (e : StoredValue) (d : Int) :
    (e.setExpiration d).expiresAt = some d := rfl

theorem isExpired_of_none (c : Clock) (e : StoredValue) (h : e.expiresAt = none) :
    e.isExpired c = false := by
  simp [isExpired, h]

theorem isExpired_congr (c : Clock) (e e' : StoredValue) (h : e'.expiresAt = e.expiresAt) :
    e'.isExpired c = e.isExpired c := by
  rw [isExpired, isExpired, h]

end StoredValue

end RustyPotato
