import Lra.Effect.Fallible
import Lra.Server.Main

/-!
# Messages of clients

What the networking thread does with the text of a message, up to the handler it posts to
the main event loop, and how the handlers read their arguments. The accessors of jsoncpp
are given; they throw on values of an unexpected type, and no code on the way catches. A
message passes through exactly if it has the shape that its handler reads.
-/

namespace Lra

open Effect

/-- `Json::Value`. The members of an object are in the order of their keys. -/
inductive JsonValue where
  | null
  | int (value : Int64)
  | uint (value : UInt64)
  | real (value : Float)
  | string (value : String)
  | bool (value : Bool)
  | array (values : List JsonValue)
  | object (members : List (String × JsonValue))

/-- `Json::Exception`. -/
inductive JsonError where
  | logicError
  | runtimeError
  deriving DecidableEq, Repr

namespace JsonValue

/-! ### The shape of a value -/

/-- The member of a name, null where there is none. -/
def member (key : String) : JsonValue → JsonValue
  | object members => ((members.find? fun m => m.1 == key).map Prod.snd).getD null
  | _ => null

def hasMember (key : String) : JsonValue → Bool
  | object members => members.any fun m => m.1 == key
  | _ => false

/-- What an array or an object is made of. -/
def elements : JsonValue → List JsonValue
  | array values => values
  | object members => members.map Prod.snd
  | _ => []

/-- Neither an array nor an object. -/
def IsScalar : JsonValue → Prop
  | array _ | object _ => False
  | _ => True

/-- Null or an object. -/
def IsRecord : JsonValue → Prop
  | null | object _ => True
  | _ => False

/-- Null, a Boolean or a number. -/
def IsBoolLike : JsonValue → Prop
  | string _ | array _ | object _ => False
  | _ => True

/-- `maxUInt`. -/
def maxUInt : UInt64 := 4294967295

/-- Null, a Boolean or a number from 0 to `maxUInt`. -/
def IsUIntLike : JsonValue → Prop
  | null | bool _ => True
  | int value => 0 ≤ value ∧ value.toUInt64 ≤ maxUInt
  | uint value => value ≤ maxUInt
  | real value => 0 ≤ value ∧ value ≤ maxUInt.toFloat
  | string _ | array _ | object _ => False

/-- Removing a member leaves the others. -/
theorem member_filter {key other : String} (h : other ≠ key)
    (members : List (String × JsonValue)) :
    (object (members.filter fun m => m.1 != key)).member other
      = (object members).member other := by
  simp only [member, List.find?_filter]
  congr 3
  funext m
  by_cases hm : m.1 = other
  · simp [hm, h]
  · simp [hm]

end JsonValue

/-! ### Accessors of jsoncpp -/

/-- The calls on a `Json::Value`. -/
structure Jsoncpp where
  isNull : JsonValue → Bool
  isMember : JsonValue → String → Except JsonError Bool
  /-- The constant `operator[]`. -/
  get : JsonValue → String → Except JsonError JsonValue
  removeMember : JsonValue → String → Except JsonError JsonValue
  asString : JsonValue → Except JsonError String
  asBool : JsonValue → Except JsonError Bool
  asUInt : JsonValue → Except JsonError UInt32
  /-- What a loop from `begin()` to `end()` visits. -/
  elements : JsonValue → List JsonValue

namespace Jsoncpp

open JsonValue

/-- What is documented of them. A member is looked up in null and in an object, and a value is
converted where it can be; all else throws. -/
structure Lawful (J : Jsoncpp) : Prop where
  isNull_iff : ∀ v, J.isNull v = true ↔ v = .null
  isMember_record : ∀ v key, v.IsRecord → J.isMember v key = .ok (v.hasMember key)
  isMember_other : ∀ v key, ¬ v.IsRecord → J.isMember v key = .error .logicError
  get_record : ∀ v key, v.IsRecord → J.get v key = .ok (v.member key)
  get_other : ∀ v key, ¬ v.IsRecord → J.get v key = .error .logicError
  removeMember_object : ∀ members key, J.removeMember (.object members) key
    = .ok (.object (members.filter fun m => m.1 != key))
  asString_null : J.asString .null = .ok ""
  asString_iff : ∀ v, Succeeds (J.asString v) ↔ v.IsScalar
  asBool_iff : ∀ v, Succeeds (J.asBool v) ↔ v.IsBoolLike
  asUInt_iff : ∀ v, Succeeds (J.asUInt v) ↔ v.IsUIntLike
  asUInt_int : ∀ i, (JsonValue.int i).IsUIntLike → J.asUInt (.int i) = .ok i.toUInt64.toUInt32
  asUInt_uint : ∀ n, (JsonValue.uint n).IsUIntLike → J.asUInt (.uint n) = .ok n.toUInt32
  elements_eq : ∀ v, J.elements v = v.elements

namespace Lawful

variable {J : Jsoncpp}

theorem succeeds_get (laws : J.Lawful) (v : JsonValue) (key : String) :
    Succeeds (J.get v key) ↔ v.IsRecord := by
  by_cases record : v.IsRecord
  · exact iff_of_true ⟨_, laws.get_record v key record⟩ record
  · refine iff_of_false ?_ record
    rw [laws.get_other v key record]
    exact not_succeeds_throw _

/-- A member is read and the reading goes on with it. -/
theorem succeeds_get_bind {α : Type} (laws : J.Lawful) (v : JsonValue) (key : String)
    (f : JsonValue → Except JsonError α) :
    Succeeds (J.get v key >>= f) ↔ v.IsRecord ∧ Succeeds (f (v.member key)) :=
  succeeds_bind_iff (laws.succeeds_get v key) fun record => laws.get_record v key record

end Lawful

/-- The accessors as they are documented. `realToString` is how a double is printed. -/
def standard (realToString : Float → String) : Jsoncpp where
  isNull
    | .null => true
    | _ => false
  isMember v key :=
    match v with
    | .null => pure false
    | .object members => pure (members.any fun m => m.1 == key)
    | _ => throw .logicError
  get v key :=
    match v with
    | .null => pure .null
    | .object members => pure ((JsonValue.object members).member key)
    | _ => throw .logicError
  removeMember v key :=
    match v with
    | .null => pure .null
    | .object members => pure (.object (members.filter fun m => m.1 != key))
    | _ => throw .logicError
  asString
    | .null => pure ""
    | .string value => pure value
    | .bool value => pure (if value then "true" else "false")
    | .int value => pure (toString value.toInt)
    | .uint value => pure (toString value.toNat)
    | .real value => pure (realToString value)
    | .array _ | .object _ => throw .logicError
  asBool
    | .null => pure false
    | .bool value => pure value
    | .int value => pure (value != 0)
    | .uint value => pure (value != 0)
    | .real value => pure (value != 0 && !value.isNaN)
    | .string _ | .array _ | .object _ => throw .logicError
  asUInt
    | .null => pure 0
    | .bool value => pure (if value then 1 else 0)
    | .int value =>
      if 0 ≤ value ∧ value.toUInt64 ≤ maxUInt then pure value.toUInt64.toUInt32
      else throw .logicError
    | .uint value => if value ≤ maxUInt then pure value.toUInt32 else throw .logicError
    | .real value =>
      if 0 ≤ value ∧ value ≤ maxUInt.toFloat then pure value.toUInt32 else throw .logicError
    | .string _ | .array _ | .object _ => throw .logicError
  elements := JsonValue.elements

theorem lawful_standard (realToString : Float → String) : (standard realToString).Lawful where
  isNull_iff v := by cases v <;> simp [standard]
  isMember_record v key record := by
    cases v with
    | null | object members => rfl
    | _ => cases record
  isMember_other v key other := by
    cases v with
    | null | object members => exact absurd trivial other
    | _ => rfl
  get_record v key record := by
    cases v with
    | null | object members => rfl
    | _ => cases record
  get_other v key other := by
    cases v with
    | null | object members => exact absurd trivial other
    | _ => rfl
  removeMember_object members key := rfl
  asString_null := rfl
  asString_iff v := by cases v <;> simp [standard, IsScalar]
  asBool_iff v := by cases v <;> simp [standard, IsBoolLike]
  asUInt_iff v := by
    cases v with
    | int value =>
      by_cases h : 0 ≤ value ∧ value.toUInt64 ≤ maxUInt <;> simp [standard, IsUIntLike, h]
    | uint value =>
      by_cases h : value ≤ maxUInt <;> simp [standard, IsUIntLike, h]
    | real value =>
      by_cases h : 0 ≤ value ∧ value ≤ maxUInt.toFloat <;> simp [standard, IsUIntLike, h]
    | _ => simp [standard, IsUIntLike]
  asUInt_int i fits := if_pos fits
  asUInt_uint n fits := if_pos fits
  elements_eq v := rfl

end Jsoncpp

namespace Server

open JsonValue

def uint8JsonArrayToVec (J : Jsoncpp) (arr : JsonValue) : Except JsonError (List UInt8) :=
  (J.elements arr).mapM fun e => do
    let v ← J.asUInt e
    return v.toUInt8

/-- The messages the server registers a handler for. -/
inductive MessageType where
  | moduleInfoRequire
  | drvDriveUpdate
  | drvCmdUpdate
  | regAllUpdate
  | calibrationRequire
  | regAllRequire
  | dataRTKeepRequire
  | dataRTStopRequire
  deriving DecidableEq, Repr

/-- `messageHandlers`. -/
def messageHandlers : String → List MessageType
  | "moduleInfoRequire" => [.moduleInfoRequire]
  | "drvDriveUpdate" => [.drvDriveUpdate]
  | "drvCmdUpdate" => [.drvCmdUpdate]
  | "regAllUpdate" => [.regAllUpdate]
  | "calibrationRequire" => [.calibrationRequire]
  | "regAllRequire" => [.regAllRequire]
  | "dataRTKeepRequire" => [.dataRTKeepRequire]
  | "dataRTStopRequire" => [.dataRTStopRequire]
  | _ => []

section Parameters

variable (parse : String → Except JsonError JsonValue) (J : Jsoncpp)

/-- `WebsocketServer::onMessage`: the handlers it posts, with their arguments. `parse` is
`parseJson`, which leaves what it could read of an invalid text. -/
def onMessage (payload : String) : Except JsonError (List (MessageType × JsonValue)) := do
  let messageObject ← parse payload
  if J.isNull messageObject then
    return []
  else if ← J.isMember messageObject "type" then
    let messageType ← J.asString (← J.get messageObject "type")
    let messageObject ← J.removeMember messageObject "type"
    return (messageHandlers messageType).map fun handler => (handler, messageObject)
  else
    return []

/-- How a handler reads its arguments. -/
def decode (args : JsonValue) : MessageType → Except JsonError Event
  | .moduleInfoRequire => do
    let _ ← J.asString (← J.get args "uuid")
    return .moduleInfoRequire
  | .drvDriveUpdate => do
    let toRun ← J.asBool (← J.get (← J.get args "data") "run")
    return .drvDriveUpdate toRun
  | .drvCmdUpdate => do
    let rtpX ← J.asUInt (← J.get (← J.get args "data") "x")
    let rtpY ← J.asUInt (← J.get (← J.get args "data") "y")
    let rtpZ ← J.asUInt (← J.get (← J.get args "data") "z")
    return .drvCmdUpdate (rtpX.toUInt8, rtpY.toUInt8, rtpZ.toUInt8)
  | .regAllUpdate => do
    let x ← uint8JsonArrayToVec J (← J.get (← J.get (← J.get args "data") "drv") "x")
    let y ← uint8JsonArrayToVec J (← J.get (← J.get (← J.get args "data") "drv") "y")
    let z ← uint8JsonArrayToVec J (← J.get (← J.get (← J.get args "data") "drv") "z")
    let accArr ← uint8JsonArrayToVec J (← J.get (← J.get args "data") "acc")
    return .regAllUpdate x y z accArr
  | .calibrationRequire => return .calibrationRequire
  | .regAllRequire => return .regAllRequire
  | .dataRTKeepRequire => return .dataRTKeepRequire
  | .dataRTStopRequire => return .dataRTStopRequire

end Parameters

/-! ### What a handler needs -/

/-- The handler sends a message back. -/
def MessageType.Replies : MessageType → Prop
  | .dataRTKeepRequire | .dataRTStopRequire => False
  | _ => True

/-- Some run of the handler sends a message. -/
def Event.Sends (e : Event) : Prop := ∃ msg : Message, e.code.May (MainOp.host (.send msg))

theorem sends_moduleInfoRequire : Event.moduleInfoRequire.Sends :=
  ⟨.moduleInfoRequireResponse true, .inr ⟨true, .inl rfl⟩⟩

/-- It sends also when the drive already runs as wished. -/
theorem sends_drvDriveUpdate (toRun : Bool) : (Event.drvDriveUpdate toRun).Sends := by
  cases toRun with
  | false => exact ⟨.drvDriveUpdateRecv true, .inr ⟨false, .inr ⟨true, .inl rfl⟩⟩⟩
  | true => exact ⟨.drvDriveUpdateRecv true, .inr ⟨true, .inr ⟨true, .inl rfl⟩⟩⟩

theorem sends_drvCmdUpdate (rtp : RtpCmd) : (Event.drvCmdUpdate rtp).Sends :=
  ⟨.drvCmdUpdateRecv, .inr ⟨(), .inr ⟨(), .inr ⟨(), .inr ⟨(), .inl rfl⟩⟩⟩⟩⟩

/-- It sends also during a calibration, when it leaves the accelerometer alone. -/
theorem sends_regAllUpdate (x y z accArr : List UInt8) :
    (Event.regAllUpdate x y z accArr).Sends :=
  ⟨.regAllUpdateRecv, .inr ⟨(), .inr ⟨(), .inr ⟨(), .inr ⟨true, .inr ⟨(), .inl rfl⟩⟩⟩⟩⟩⟩

theorem sends_calibrationRequire : Event.calibrationRequire.Sends :=
  ⟨.calibrationRequireResponse {} {} {} ⟨0, 0, 0, 0⟩, .inr ⟨true, .inr ⟨(), .inr ⟨(),
    .inr ⟨({}, {}, {}, ⟨0, 0, 0, 0⟩), .inr ⟨(), .inr ⟨(), .inl rfl⟩⟩⟩⟩⟩⟩⟩

theorem sends_regAllRequire : Event.regAllRequire.Sends :=
  ⟨.regAllRequireResponse [] [] [] [] [], .inr ⟨([], [], [], [], []), .inl rfl⟩⟩

/-- A program that only raises or lowers a flag sends nothing. -/
theorem not_may_send_store (f : Flag) (b : Bool) (msg : Message) :
    ¬ (store f b).May (MainOp.host (.send msg)) := by
  simp [store, Program.May]

theorem not_sends_dataRTKeepRequire : ¬ Event.dataRTKeepRequire.Sends := by
  intro ⟨msg, h⟩
  exact not_may_send_store .needSendRt true msg h

theorem not_sends_dataRTStopRequire : ¬ Event.dataRTStopRequire.Sends := by
  intro ⟨msg, h⟩
  exact not_may_send_store .needSendRt false msg h

/-- The arguments have the shape that the handler reads. -/
def MessageType.Fits (args : JsonValue) : MessageType → Prop
  | .moduleInfoRequire => (args.member "uuid").IsScalar
  | .drvDriveUpdate =>
    (args.member "data").IsRecord ∧ ((args.member "data").member "run").IsBoolLike
  | .drvCmdUpdate =>
    (args.member "data").IsRecord ∧
      ∀ axis ∈ ["x", "y", "z"], ((args.member "data").member axis).IsUIntLike
  | .regAllUpdate =>
    (args.member "data").IsRecord ∧ ((args.member "data").member "drv").IsRecord ∧
      (∀ axis ∈ ["x", "y", "z"],
        ∀ e ∈ (((args.member "data").member "drv").member axis).elements, e.IsUIntLike) ∧
      ∀ e ∈ ((args.member "data").member "acc").elements, e.IsUIntLike
  | _ => True

section Parameters

variable (parse : String → Except JsonError JsonValue) {J : Jsoncpp}

theorem succeeds_uint8JsonArrayToVec (laws : J.Lawful) (arr : JsonValue) :
    Succeeds (uint8JsonArrayToVec J arr) ↔ ∀ e ∈ arr.elements, e.IsUIntLike := by
  rw [uint8JsonArrayToVec, succeeds_mapM, laws.elements_eq]
  have element (e : JsonValue) :
      Succeeds (do let v ← J.asUInt e; return v.toUInt8) ↔ e.IsUIntLike :=
    succeeds_bind_pure.trans (laws.asUInt_iff e)
  simp only [element]

section Shapes

variable {α β : Type} {args : JsonValue} {read : JsonValue → Except JsonError α}
  {f : α → Except JsonError β} {P : JsonValue → Prop} {Q : Prop}

/-- A handler reads a field of its data and goes on. -/
theorem succeeds_field (laws : J.Lawful) (h : args.IsRecord) (key : String)
    (hr : ∀ v, Succeeds (read v) ↔ P v) (hf : ∀ a, Succeeds (f a) ↔ Q) :
    Succeeds (J.get args "data" >>= fun data => J.get data key >>= fun v => read v >>= f)
      ↔ (args.member "data").IsRecord ∧ P ((args.member "data").member key) ∧ Q := by
  rw [laws.succeeds_get_bind, laws.succeeds_get_bind, succeeds_bind_and (hr _) hf]
  exact and_iff_right h

/-- The same for a field of its data's drives. -/
theorem succeeds_drvField (laws : J.Lawful) (h : args.IsRecord) (key : String)
    (hr : ∀ v, Succeeds (read v) ↔ P v) (hf : ∀ a, Succeeds (f a) ↔ Q) :
    Succeeds (J.get args "data" >>= fun data => J.get data "drv" >>= fun drv =>
        J.get drv key >>= fun v => read v >>= f)
      ↔ (args.member "data").IsRecord ∧ ((args.member "data").member "drv").IsRecord ∧
        P (((args.member "data").member "drv").member key) ∧ Q := by
  rw [laws.succeeds_get_bind, laws.succeeds_get_bind, laws.succeeds_get_bind,
    succeeds_bind_and (hr _) hf]
  exact and_iff_right h

end Shapes

theorem succeeds_moduleInfoRequire (laws : J.Lawful) {args : JsonValue} (h : args.IsRecord) :
    Succeeds (decode J args .moduleInfoRequire)
      ↔ MessageType.moduleInfoRequire.Fits args := by
  unfold decode
  rw [laws.succeeds_get_bind, succeeds_bind_pure, laws.asString_iff]
  exact and_iff_right h

theorem succeeds_drvDriveUpdate (laws : J.Lawful) {args : JsonValue} (h : args.IsRecord) :
    Succeeds (decode J args .drvDriveUpdate)
      ↔ MessageType.drvDriveUpdate.Fits args := by
  unfold decode
  rw [succeeds_field laws h "run" laws.asBool_iff fun _ => iff_true_intro (succeeds_pure _)]
  simp only [and_true, MessageType.Fits]

theorem succeeds_drvCmdUpdate (laws : J.Lawful) {args : JsonValue} (h : args.IsRecord) :
    Succeeds (decode J args .drvCmdUpdate)
      ↔ MessageType.drvCmdUpdate.Fits args := by
  unfold decode
  rw [succeeds_field laws h "x" laws.asUInt_iff fun x =>
    succeeds_field laws h "y" laws.asUInt_iff fun y =>
    succeeds_field laws h "z" laws.asUInt_iff fun z => iff_true_intro (succeeds_pure _)]
  simp only [MessageType.Fits, List.forall_mem_cons]
  tauto

theorem succeeds_regAllUpdate (laws : J.Lawful) {args : JsonValue} (h : args.IsRecord) :
    Succeeds (decode J args .regAllUpdate)
      ↔ MessageType.regAllUpdate.Fits args := by
  unfold decode
  have bytes := succeeds_uint8JsonArrayToVec laws
  rw [succeeds_drvField laws h "x" bytes fun x => succeeds_drvField laws h "y" bytes fun y =>
    succeeds_drvField laws h "z" bytes fun z => succeeds_field laws h "acc" bytes fun acc =>
    iff_true_intro (succeeds_pure _)]
  simp only [MessageType.Fits, List.forall_mem_cons]
  tauto

/-- A handler reads its arguments through exactly if they have the shape it reads. -/
theorem succeeds_decode (laws : J.Lawful) {args : JsonValue} (h : args.IsRecord)
    (m : MessageType) : Succeeds (decode J args m) ↔ m.Fits args := by
  cases m with
  | moduleInfoRequire => exact succeeds_moduleInfoRequire laws h
  | drvDriveUpdate => exact succeeds_drvDriveUpdate laws h
  | drvCmdUpdate => exact succeeds_drvCmdUpdate laws h
  | regAllUpdate => exact succeeds_regAllUpdate laws h
  | calibrationRequire | regAllRequire | dataRTKeepRequire | dataRTStopRequire =>
    exact iff_of_true (succeeds_pure _) trivial

/-! ### A message on its way -/

variable (J)

/-- A handler that read its arguments sends a message exactly if its type asks for one. -/
theorem returns_sends (args : JsonValue) (m : MessageType) :
    Returns (fun e => e.Sends ↔ m.Replies) (decode J args m) := by
  cases m with
  | moduleInfoRequire =>
    repeat refine returns_bind fun _ => ?_
    exact returns_pure (iff_of_true sends_moduleInfoRequire trivial)
  | drvDriveUpdate =>
    repeat refine returns_bind fun _ => ?_
    exact returns_pure (iff_of_true (sends_drvDriveUpdate _) trivial)
  | drvCmdUpdate =>
    repeat refine returns_bind fun _ => ?_
    exact returns_pure (iff_of_true (sends_drvCmdUpdate _) trivial)
  | regAllUpdate =>
    repeat refine returns_bind fun _ => ?_
    exact returns_pure (iff_of_true (sends_regAllUpdate _ _ _ _) trivial)
  | calibrationRequire => exact returns_pure (iff_of_true sends_calibrationRequire trivial)
  | regAllRequire => exact returns_pure (iff_of_true sends_regAllRequire trivial)
  | dataRTKeepRequire => exact returns_pure (iff_of_false not_sends_dataRTKeepRequire id)
  | dataRTStopRequire => exact returns_pure (iff_of_false not_sends_dataRTStopRequire id)

variable (connected : Bool)

/-- Nothing is thrown into the main event loop by a handler and its arguments. `connected`
says whether the client still is when the handler answers, which throws if it is not. -/
def HandlerSurvives (posted : MessageType × JsonValue) : Prop :=
  ∃ e, decode J posted.2 posted.1 = .ok e ∧ (e.Sends → connected = true)

/-- Nothing is thrown into the networking thread, nor into the main event loop by a handler
that is posted to it. -/
def Survives (payload : String) : Prop :=
  ∃ posted, onMessage parse J payload = .ok posted ∧
    ∀ p ∈ posted, HandlerSurvives J connected p

/-- The text is that of a message the server takes: null or an object, with a type that has
a text, and if this names a message then with the arguments its handler reads and a client
that waits for the answer. -/
structure Acceptable (v : JsonValue) : Prop where
  record : v.IsRecord
  type : (v.member "type").IsScalar
  args : ∀ name, J.asString (v.member "type") = .ok name →
    ∀ m ∈ messageHandlers name, m.Fits v ∧ (m.Replies → connected = true)

variable {J}

theorem handlerSurvives_iff (laws : J.Lawful) {args : JsonValue} (h : args.IsRecord)
    (m : MessageType) :
    HandlerSurvives J connected (m, args) ↔ m.Fits args ∧ (m.Replies → connected = true) := by
  constructor
  · intro ⟨e, he, hc⟩
    have sends : e.Sends ↔ m.Replies := returns_sends J args m e he
    exact ⟨(succeeds_decode laws h m).1 ⟨e, he⟩, fun hr => hc (sends.2 hr)⟩
  · intro ⟨hf, hc⟩
    obtain ⟨e, he⟩ := (succeeds_decode laws h m).2 hf
    have sends : e.Sends ↔ m.Replies := returns_sends J args m e he
    exact ⟨e, he, fun hs => hc (sends.1 hs)⟩

/-- No handler reads the type, so removing it makes no difference. -/
theorem fits_filter (members : List (String × JsonValue)) (m : MessageType) :
    m.Fits (.object (members.filter fun e => e.1 != "type")) ↔ m.Fits (.object members) := by
  have uuid := member_filter (show "uuid" ≠ "type" by decide) members
  have data := member_filter (show "data" ≠ "type" by decide) members
  cases m with
  | moduleInfoRequire => simp only [MessageType.Fits, uuid]
  | drvDriveUpdate | drvCmdUpdate | regAllUpdate => simp only [MessageType.Fits, data]
  | calibrationRequire | regAllRequire | dataRTKeepRequire | dataRTStopRequire => exact Iff.rfl

theorem member_eq_null {key : String} {members : List (String × JsonValue)}
    (h : (JsonValue.object members).hasMember key = false) :
    (JsonValue.object members).member key = .null := by
  have none : members.find? (fun m => m.1 == key) = none := by
    rw [List.find?_eq_none]
    exact List.any_eq_false.mp h
  simp only [member, none, Option.map_none, Option.getD_none]

variable {parse}

theorem onMessage_null (laws : J.Lawful) {payload : String} (h : parse payload = .ok .null) :
    onMessage parse J payload = .ok [] := by
  rw [onMessage, h, except_ok_bind, if_pos ((laws.isNull_iff _).mpr rfl)]
  rfl

theorem not_isNull (laws : J.Lawful) {v : JsonValue} (other : v ≠ .null) : ¬ J.isNull v = true :=
  fun isNull => other ((laws.isNull_iff v).mp isNull)

/-- An object without a type does not name a message either. -/
theorem onMessage_object (laws : J.Lawful) {payload : String}
    {members : List (String × JsonValue)} (h : parse payload = .ok (.object members)) :
    onMessage parse J payload = do
      let messageType ← J.asString ((JsonValue.object members).member "type")
      return (messageHandlers messageType).map fun handler =>
        (handler, .object (members.filter fun m => m.1 != "type")) := by
  have notNull : ¬ J.isNull (.object members) = true := not_isNull laws nofun
  rw [onMessage, h, except_ok_bind, if_neg notNull,
    laws.isMember_record (.object members) "type" trivial, except_ok_bind]
  cases ht : (JsonValue.object members).hasMember "type" with
  | true =>
    rw [if_pos rfl, laws.get_record (.object members) "type" trivial, except_ok_bind]
    simp only [laws.removeMember_object, except_ok_bind]
  | false =>
    rw [if_neg Bool.false_ne_true, member_eq_null ht, laws.asString_null]
    rfl

/-- Any other value is refused by the test for the type. -/
theorem not_succeeds_onMessage (laws : J.Lawful) {payload : String} {v : JsonValue}
    (h : parse payload = .ok v) (hv : ¬ v.IsRecord) :
    ¬ Succeeds (onMessage parse J payload) := by
  have other : v ≠ .null := by
    rintro rfl
    exact hv trivial
  rw [onMessage, h, except_ok_bind, if_neg (not_isNull laws other), laws.isMember_other v _ hv]
  exact not_succeeds_throw _

theorem survives_null (laws : J.Lawful) {payload : String} (h : parse payload = .ok .null) :
    Survives parse J connected payload ∧ Acceptable J connected .null := by
  constructor
  · exact ⟨[], onMessage_null laws h, by simp⟩
  · refine ⟨trivial, trivial, ?_⟩
    intro name hname m hm
    obtain rfl : "" = name := Except.ok.inj (laws.asString_null.symm.trans hname)
    simp [messageHandlers] at hm

theorem survives_object (laws : J.Lawful) {payload : String}
    {members : List (String × JsonValue)} (h : parse payload = .ok (.object members)) :
    Survives parse J connected payload ↔ Acceptable J connected (.object members) := by
  have handled (m : MessageType) :
      HandlerSurvives J connected (m, .object (members.filter fun m => m.1 != "type"))
        ↔ m.Fits (.object members) ∧ (m.Replies → connected = true) :=
    (handlerSurvives_iff connected laws (show IsRecord (.object _) from trivial) m).trans
      (and_congr_left' (fits_filter members m))
  unfold Survives
  rw [onMessage_object laws h]
  constructor
  · intro ⟨posted, hp, hall⟩
    have scalar := (succeeds_bind_pure.trans (laws.asString_iff _)).1 ⟨posted, hp⟩
    refine ⟨trivial, scalar, ?_⟩
    intro name hname m hm
    rw [hname] at hp
    obtain rfl := Except.ok.inj hp
    exact (handled m).1 (hall _ (List.mem_map_of_mem hm))
  · intro ⟨_, scalar, args⟩
    obtain ⟨name, hname⟩ := (laws.asString_iff _).2 scalar
    rw [hname]
    refine ⟨_, rfl, ?_⟩
    intro p hp
    obtain ⟨m, hm, rfl⟩ := List.mem_map.1 hp
    exact (handled m).2 (args name hname m hm)

variable (parse)

/-- A text passes through exactly if it parses and is that of a message the server takes. -/
theorem survives_iff (laws : J.Lawful) (payload : String) :
    Survives parse J connected payload
      ↔ ∃ v, parse payload = .ok v ∧ Acceptable J connected v := by
  cases h : parse payload with
  | error e =>
    refine iff_of_false ?_ (by simp)
    intro ⟨posted, hp, _⟩
    rw [onMessage, h] at hp
    cases hp
  | ok v =>
    simp only [Except.ok.injEq, exists_eq_left']
    by_cases hv : v.IsRecord
    · cases v with
      | null =>
        obtain ⟨survives, acceptable⟩ := survives_null connected laws h
        exact iff_of_true survives acceptable
      | object members => exact survives_object connected laws h
      | _ => cases hv
    · refine iff_of_false ?_ fun ha => hv ha.record
      intro ⟨posted, hp, _⟩
      exact not_succeeds_onMessage laws h hv ⟨posted, hp⟩

end Parameters

/-- What jsoncpp reads of a message that starts the drives. -/
def driveMessage : JsonValue :=
  .object [("data", .object [("run", .bool true)]), ("type", .string "drvDriveUpdate")]

theorem survives_iff_driveMessage :
    (Jsoncpp.standard fun _ => "").Lawful ∧
      Survives (fun _ => .ok driveMessage) (.standard fun _ => "") true
        "\x7b\"type\":\"drvDriveUpdate\",\"data\":\x7b\"run\":true\x7d\x7d" := by
  have laws := Jsoncpp.lawful_standard fun _ => ""
  refine ⟨laws, (survives_iff (fun _ => .ok driveMessage) true laws _).mpr ⟨_, rfl, ?_⟩⟩
  refine ⟨trivial, trivial, ?_⟩
  intro name named m handles
  obtain rfl : "drvDriveUpdate" = name := Except.ok.inj named
  obtain rfl := List.mem_singleton.mp handles
  exact ⟨⟨trivial, trivial⟩, fun _ => rfl⟩

/-- `5` is valid JSON, but the networking thread does not survive it; the main event loop
does not survive a command whose `x` is a text. -/
theorem not_survives_number :
    ¬ Survives (fun _ => .ok (.int 5)) (.standard fun _ => "") true "5" ∧
      ¬ Survives
        (fun _ => .ok (.object
          [("data", .object [("x", .string "a")]), ("type", .string "drvCmdUpdate")]))
        (.standard fun _ => "") true
        "\x7b\"type\":\"drvCmdUpdate\",\"data\":\x7b\"x\":\"a\"\x7d\x7d" := by
  constructor
  · intro ⟨posted, h, _⟩
    cases h
  · intro ⟨posted, h, handled⟩
    obtain rfl := Except.ok.inj h
    obtain ⟨e, he, _⟩ := handled _ (List.mem_singleton.2 rfl)
    cases he

end Server

end Lra
