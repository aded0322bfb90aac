import BackendPatterns.Lib.Decimal

/-! # Serialized messages

The serializer puts the fields of a message between fixed texts without escaping
them. A field may look like the text after it, but a number follows the last `=`,
so the message can be read back from the right, except for its payload. -/

namespace BackendPatterns.Visitor
open BackendPatterns.Lib

structure Connect where
  clientId : Bytes
  version : Int

structure Publish where
  topic : Bytes
  payload : Bytes
  qos : Int

structure Subscribe where
  topicFilter : Bytes

structure Disconnect where
  reason : Bytes

inductive Message
  | connect (msg : Connect)
  | publish (msg : Publish)
  | subscribe (msg : Subscribe)
  | disconnect (msg : Disconnect)

/-- The overloads of `operator()` of a visitor. -/
structure MessageVisitor (R : Type) where
  connect : Connect → R
  publish : Publish → R
  subscribe : Subscribe → R
  disconnect : Disconnect → R

/-- `std::visit`. -/
def visit {R : Type} (visitor : MessageVisitor R) : Message → R
  | .connect msg => visitor.connect msg
  | .publish msg => visitor.publish msg
  | .subscribe msg => visitor.subscribe msg
  | .disconnect msg => visitor.disconnect msg

def serializer : MessageVisitor Bytes where
  connect msg :=
    str "CONNECT(client=" ++ msg.clientId ++ str ", v=" ++ decimal msg.version ++ str ")"
  publish msg := str "PUBLISH(topic=" ++ msg.topic ++ str ", qos=" ++ decimal msg.qos ++ str ")"
  subscribe msg := str "SUBSCRIBE(filter=" ++ msg.topicFilter ++ str ")"
  disconnect msg := str "DISCONNECT(reason=" ++ msg.reason ++ str ")"

/-- The same alternative with the same fields, where payloads do not count. -/
inductive SameUpToPayload : Message → Message → Prop
  | connect (msg : Connect) : SameUpToPayload (.connect msg) (.connect msg)
  | publish (topic payload payload' : Bytes) (qos : Int) :
    SameUpToPayload (.publish ⟨topic, payload, qos⟩) (.publish ⟨topic, payload', qos⟩)
  | subscribe (msg : Subscribe) : SameUpToPayload (.subscribe msg) (.subscribe msg)
  | disconnect (msg : Disconnect) : SameUpToPayload (.disconnect msg) (.disconnect msg)

/-- The letter that a serialized message begins with. -/
def initial : Message → UInt8
  | .connect _ => 67
  | .publish _ => 80
  | .subscribe _ => 83
  | .disconnect _ => 68

theorem head?_visit (m : Message) : (visit serializer m).head? = some (initial m) := by
  cases m <;> rfl

theorem initial_eq {m m' : Message} (h : visit serializer m = visit serializer m') :
    initial m = initial m' := by
  have hhead := congrArg List.head? h
  rw [head?_visit, head?_visit] at hhead
  exact Option.some.inj hhead

/-- A text and a number between fixed texts, of which the middle one ends in `=`. -/
theorem field_inj {opening label closing s t : Bytes} {i j : Int}
    (h : opening ++ s ++ (label ++ str "=") ++ decimal i ++ closing =
      opening ++ t ++ (label ++ str "=") ++ decimal j ++ closing) : s = t ∧ i = j := by
  have hequals : ¬ IsNumeral 61 := by decide
  have hsplit : ∀ (s : Bytes) (i : Int),
      opening ++ s ++ (label ++ str "=") ++ decimal i ++ closing =
        opening ++ (s ++ label) ++ 61 :: decimal i ++ closing := by
    intro s i
    have hone : str "=" = [61] := rfl
    simp only [hone, List.append_assoc, List.cons_append, List.nil_append]
  rw [hsplit, hsplit] at h
  obtain ⟨htexts, hnumbers⟩ := append_decimal_inj hequals h
  exact ⟨List.append_cancel_right (List.append_cancel_left htexts), hnumbers⟩

theorem text_inj {opening closing s t : Bytes}
    (h : opening ++ s ++ closing = opening ++ t ++ closing) : s = t :=
  List.append_cancel_left (List.append_cancel_right h)

theorem connect_inj {msg msg' : Connect} (h : serializer.connect msg = serializer.connect msg') :
    msg.clientId = msg'.clientId ∧ msg.version = msg'.version :=
  @field_inj (str "CONNECT(client=") (str ", v") (str ")") _ _ _ _ h

theorem publish_inj {msg msg' : Publish} (h : serializer.publish msg = serializer.publish msg') :
    msg.topic = msg'.topic ∧ msg.qos = msg'.qos :=
  @field_inj (str "PUBLISH(topic=") (str ", qos") (str ")") _ _ _ _ h

theorem subscribe_inj {msg msg' : Subscribe}
    (h : serializer.subscribe msg = serializer.subscribe msg') :
    msg.topicFilter = msg'.topicFilter :=
  @text_inj (str "SUBSCRIBE(filter=") (str ")") _ _ h

theorem disconnect_inj {msg msg' : Disconnect}
    (h : serializer.disconnect msg = serializer.disconnect msg') : msg.reason = msg'.reason :=
  @text_inj (str "DISCONNECT(reason=") (str ")") _ _ h

/-- Two messages are serialized alike if and only if they are the same message,
payloads apart. -/
theorem serializer_identifies (m m' : Message) :
    visit serializer m = visit serializer m' ↔ SameUpToPayload m m' := by
  constructor
  · intro h
    have hinitial := initial_eq h
    cases m with
    | connect msg =>
      cases m' with
      | connect msg' =>
        obtain ⟨clientId, version⟩ := msg
        obtain ⟨rfl, rfl⟩ := connect_inj h
        exact .connect _
      | _ => simp [initial] at hinitial
    | publish msg =>
      cases m' with
      | publish msg' =>
        obtain ⟨topic, payload, qos⟩ := msg
        obtain ⟨rfl, rfl⟩ := publish_inj h
        exact .publish ..
      | _ => simp [initial] at hinitial
    | subscribe msg =>
      cases m' with
      | subscribe msg' =>
        obtain ⟨topicFilter⟩ := msg
        obtain rfl := subscribe_inj h
        exact .subscribe _
      | _ => simp [initial] at hinitial
    | disconnect msg =>
      cases m' with
      | disconnect msg' =>
        obtain ⟨reason⟩ := msg
        obtain rfl := disconnect_inj h
        exact .disconnect _
      | _ => simp [initial] at hinitial
  · intro h
    cases h <;> rfl

end BackendPatterns.Visitor
