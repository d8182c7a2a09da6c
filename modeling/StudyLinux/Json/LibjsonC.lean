import StudyLinux.Json.Object
import StudyLinux.Text.Filter

/-!
# Two ways to the records of the json-c example

`get_data` goes through all members of both levels to find the array of a country code
and a network code, and then looks the two codes up as keys. `getData_same` says that both
passes come to the same records.
-/

namespace StudyLinux

namespace LibjsonC

/-! ## Documents -/

/-- An object of an array: fields that are strings. -/
abbrev Fields := Object Text Text

/-- An object of objects of arrays. -/
abbrev Document := Object Text (Object Text (List Fields))

/-- `json_object_object_get`. NULL is `none`, and is what NULL has under every key. -/
def jsonObjectObjectGet {α : Type} (o : Option (Object Text α)) (key : Text) : Option α :=
  o.bind fun o => o.get key

/-- `json_object_array_length`. -/
def jsonObjectArrayLength (array : Option (List Fields)) : Nat := (array.getD []).length

/-- `json_object_array_get_idx`. -/
def jsonObjectArrayGetIdx (array : Option (List Fields)) (i : Nat) : Option Fields :=
  (array.getD [])[i]?

/-! ## Records -/

/-- The values that both loops read of an element. -/
structure Record where
  carrier : Option Text
  apn : Option Text
  servicegroup : Option Text
  auto : Option Text
  protocol : Option Text

/-- What one round of the loops reads. -/
def record (temp : Option Fields) : Record where
  carrier := jsonObjectObjectGet temp "carrier".toList
  apn := jsonObjectObjectGet temp "apn".toList
  servicegroup := jsonObjectObjectGet temp "servicegroup".toList
  auto := jsonObjectObjectGet temp "auto".toList
  protocol := jsonObjectObjectGet temp "protocol".toList

/-- The rounds of `for (i = 0; i < json_object_array_length (array); i++)`. -/
def records (array : Option (List Fields)) : List Record :=
  (List.range (jsonObjectArrayLength array)).map fun i => record (jsonObjectArrayGetIdx array i)

/-- `PRINT_KEY_VALUE` of a string or NULL. -/
def printKeyValue : Option Text → Text
  | none => "Type is null\n".toList
  | some text => text ++ ['\n']

/-- `%s` of `json_object_get_string`. -/
def percentS (text : Option Text) : Text := text.getD "(null)".toList

/-- What the scan prints of a record. -/
def Record.values (r : Record) : Text :=
  printKeyValue r.carrier ++ printKeyValue r.apn ++ printKeyValue r.servicegroup ++
    printKeyValue r.auto ++ printKeyValue r.protocol

/-- What the lookup prints of a record. -/
def Record.line (r : Record) : Text :=
  "carrier=".toList ++ percentS r.carrier ++ ", apn=".toList ++ percentS r.apn ++
    ", servicegroup=".toList ++ percentS r.servicegroup ++ ", auto=".toList ++ percentS r.auto ++
    ", protocol=".toList ++ percentS r.protocol ++ ['\n']

/-! ## The two passes -/

/-- The arrays that the scan of `get_data` reaches, with the keys they stand under. -/
def scanned (pInput : Document) (mcc mnc : Text) : List (Text × Text × List Fields) :=
  pInput.members.flatMap fun (mccVal, valueObj) =>
    if mccVal = mcc then
      valueObj.members.flatMap fun (mncVal, valueObj2) =>
        if mncVal = mnc then [(mccVal, mncVal, valueObj2)] else []
    else []

/-- The array that the lookups of `get_data` return. -/
def lookedUp (pInput : Document) (mcc mnc : Text) : Option (List Fields) :=
  let mccObj := jsonObjectObjectGet (some pInput) mcc
  jsonObjectObjectGet mccObj mnc

/-- The records of the scan. -/
def scanRecords (pInput : Document) (mcc mnc : Text) : List Record :=
  (scanned pInput mcc mnc).flatMap fun reached => records (some reached.2.2)

/-- The records of the lookups. -/
def lookupRecords (pInput : Document) (mcc mnc : Text) : List Record :=
  records (lookedUp pInput mcc mnc)

/-- What the scan prints. `serialized` is what json-c writes for an array, whose type is
5. -/
def scanText (serialized : List Fields → Text) (pInput : Document) (mcc mnc : Text) : Text :=
  (scanned pInput mcc mnc).flatMap fun (mccVal, mncVal, valueObj2) =>
    "MCC=".toList ++ mccVal ++ ",MNC=".toList ++ mncVal ++ ",data type=5\n".toList ++
      serialized valueObj2 ++ '\n' :: (records (some valueObj2)).flatMap Record.values

/-- What the lookups print. -/
def lookupText (pInput : Document) (mcc mnc : Text) : Text :=
  (lookupRecords pInput mcc mnc).flatMap Record.line

/-- `get_data`. -/
def getData (serialized : List Fields → Text) (pInput : Document) (mcc mnc : Text) : Text :=
  scanText serialized pInput mcc mnc ++ lookupText pInput mcc mnc

/-- `get_apninfo_from_json`. -/
def getApninfoFromJson (file : Option Document) (mcc mnc : Text) : Text :=
  match file with
  | none => "Reading file object is failed.\n".toList
  | some root => lookupText root mcc mnc

/-! ## The same records -/

/-- The scan reaches the array that the lookups return, once, and no other. -/
theorem scanned_eq (pInput : Document) (mcc mnc : Text) :
    scanned pInput mcc mnc =
      (lookedUp pInput mcc mnc).toList.map fun array => (mcc, mnc, array) := by
  unfold scanned lookedUp jsonObjectObjectGet
  rw [pInput.flatMap_members mcc fun mccVal valueObj =>
    valueObj.members.flatMap fun m => if m.1 = mnc then [(mccVal, m.1, m.2)] else []]
  dsimp only [Option.bind_some]
  cases pInput.get mcc with
  | none => rfl
  | some valueObj =>
      rw [Option.map_some, Option.getD_some, Option.bind_some,
        valueObj.flatMap_members mnc fun mncVal array => [(mcc, mncVal, array)]]
      cases valueObj.get mnc with
      | none => rfl
      | some array => rfl

/-- What the scan prints: a heading for the array, and the values of its records. -/
theorem scanText_eq (serialized : List Fields → Text) (pInput : Document) (mcc mnc : Text) :
    scanText serialized pInput mcc mnc =
      ((lookedUp pInput mcc mnc).toList.flatMap fun array =>
        "MCC=".toList ++ mcc ++ ",MNC=".toList ++ mnc ++ ",data type=5\n".toList ++
          serialized array ++ ['\n']) ++
        (scanRecords pInput mcc mnc).flatMap Record.values := by
  unfold scanText scanRecords
  rw [scanned_eq, List.flatMap_map, List.flatMap_map]
  cases lookedUp pInput mcc mnc with
  | none => rfl
  | some array => simp

/-- All that `get_data` prints is about the array that the lookups return, and ends with
what `get_apninfo_from_json` prints. -/
theorem getData_eq (serialized : List Fields → Text) (pInput : Document) (mcc mnc : Text) :
    getData serialized pInput mcc mnc =
      ((lookedUp pInput mcc mnc).toList.flatMap fun array =>
        "MCC=".toList ++ mcc ++ ",MNC=".toList ++ mnc ++ ",data type=5\n".toList ++
          serialized array ++ ['\n']) ++
        (scanRecords pInput mcc mnc).flatMap Record.values ++
          getApninfoFromJson (some pInput) mcc mnc := by
  rw [getData, scanText_eq]
  rfl

/-- The scan reaches an array exactly when the lookups return it, and both passes then
report the same records. -/
theorem getData_same (pInput : Document) (mcc mnc : Text) :
    (∀ array, (∃ mccVal mncVal, (mccVal, mncVal, array) ∈ scanned pInput mcc mnc) ↔
      lookedUp pInput mcc mnc = some array) ∧
    scanRecords pInput mcc mnc = lookupRecords pInput mcc mnc := by
  unfold scanRecords lookupRecords
  rw [scanned_eq]
  cases lookedUp pInput mcc mnc with
  | none =>
      refine ⟨fun array => iff_of_false ?_ (Option.some_ne_none _).symm, rfl⟩
      intro reached
      rcases reached with ⟨_, _, mem⟩
      cases mem
  | some found =>
      refine ⟨fun array => ⟨?_, ?_⟩, List.append_nil _⟩
      · intro reached
        rcases reached with ⟨_, _, mem⟩
        cases List.mem_singleton.mp mem
        rfl
      · intro same
        cases same
        exact ⟨mcc, mnc, List.mem_singleton_self _⟩

end LibjsonC

end StudyLinux
