import FastServer.Protocol

namespace FastServer.Rpc

open Protocol

variable {T V : Type}

/-- The `codec.Codec` interface of `core/rpc/codec`, a parameter as the interface is: `Encode` a
Go value `V` (`none` is nil), `Decode` bytes into a target of a `reflect.Type` `T` (`none` is a
nil target). Errors are their texts. `Name` is not used. -/
structure Codec (T V : Type) where
  encode : Option V → Except Bytes Bytes
  decode : Option T → Bytes → Except Bytes V

/-- `encoding/json` on the request metadata: the client marshals the map with the keys
`"service"` and `"method"`, the server unmarshals into `Metadata`. -/
structure MetaCodec where
  marshal : Bytes → Bytes → Bytes
  unmarshal : Bytes → Except Bytes (Bytes × Bytes)

/-- What `reflect` gives of Go values: `reflect.ValueOf(v).Type()`, `reflect.PtrTo(t)`, the text
`%v` prints for a type, and `==` on types. -/
structure Reflect (T V : Type) where
  typeOf : V → T
  ptrTo : T → T
  typeText : T → Bytes
  sameType : T → T → Bool

/-- A registered `Method`: calling `Func` with the service, a context and the argument gives the
reply or the text of the error. -/
structure Method (T V : Type) where
  name : Bytes
  func : V → Except Bytes V
  argType : T
  replyType : T

structure Service (T V : Type) where
  name : Bytes
  methods : GoMap Bytes (Method T V)

structure ServiceRegistry (T V : Type) where
  services : GoMap Bytes (Service T V)

def newRegistry : ServiceRegistry T V := ⟨[]⟩

/-- What `Register` reads through `reflect` of one method of the service's type. -/
structure MethodInfo (T V : Type) where
  name : Bytes
  pkgPath : Bytes
  numIn : Nat
  numOut : Nat
  /-- `mtype.In(1)` implements `context.Context` -/
  ctxIn : Bool
  /-- `mtype.In(2).Kind() == reflect.Ptr` -/
  argPtr : Bool
  /-- `mtype.Out(0).Kind() == reflect.Ptr` -/
  replyPtr : Bool
  /-- `mtype.Out(1)` implements `error` -/
  errorOut : Bool
  func : V → Except Bytes V
  argElem : T
  replyElem : T

/-- The checks of `Register`'s scan, in its order: exported, three inputs and two outputs, a
context, a pointer argument, a pointer reply and an error. -/
def MethodInfo.accepted (m : MethodInfo T V) : Bool :=
  m.pkgPath.isEmpty && m.numIn == 3 && m.numOut == 2 && m.ctxIn && m.argPtr && m.replyPtr && m.errorOut

def MethodInfo.toMethod (m : MethodInfo T V) : Method T V := ⟨m.name, m.func, m.argElem, m.replyElem⟩

/-- One round of the scan: `svc.Methods[method.Name] = …` for a method that passes the checks. -/
def scanMethod (methods : GoMap Bytes (Method T V)) (m : MethodInfo T V) : GoMap Bytes (Method T V) :=
  if m.accepted then methods.set m.name m.toMethod else methods

/-- `Register`: the methods in `reflect` order, scanned into a new service that replaces any
service of that name. It always returns nil. -/
def ServiceRegistry.register (r : ServiceRegistry T V) (serviceName : Bytes) (infos : List (MethodInfo T V)) :
    ServiceRegistry T V :=
  ⟨r.services.set serviceName ⟨serviceName, infos.foldl scanMethod []⟩⟩

inductive RegistryError
  | serviceNotFound
  | methodNotFound
  deriving DecidableEq, Repr

def RegistryError.text : RegistryError → Bytes
  | .serviceNotFound => lit "service not found"
  | .methodNotFound => lit "method not found"

def ServiceRegistry.getService (r : ServiceRegistry T V) (name : Bytes) : Except RegistryError (Service T V) :=
  match r.services.get name with
  | some svc => .ok svc
  | none => .error .serviceNotFound

def ServiceRegistry.getMethod (r : ServiceRegistry T V) (serviceName methodName : Bytes) :
    Except RegistryError (Service T V × Method T V) := do
  let svc ← r.getService serviceName
  match svc.methods.get methodName with
  | some method => .ok (svc, method)
  | none => .error .methodNotFound

/-- The error `Call` returns for an argument that is not a pointer to `ArgType`. -/
def invalidArgument (rf : Reflect T V) (argType : T) (arg : V) : Bytes :=
  lit "invalid argument type: expected " ++ rf.typeText (rf.ptrTo argType) ++ lit ", got " ++ rf.typeText (rf.typeOf arg)

/-- `Call`: the method's `Func` on the argument, once the argument is found to be a pointer to
the method's `ArgType`. -/
def ServiceRegistry.call (r : ServiceRegistry T V) (rf : Reflect T V) (serviceName methodName : Bytes)
    (arg : V) : Except Bytes V :=
  match r.getMethod serviceName methodName with
  | .error e => .error e.text
  | .ok (_, method) =>
      if rf.sameType (rf.typeOf arg) (rf.ptrTo method.argType) then method.func arg
      else .error (invalidArgument rf method.argType arg)

/-- The registries `Register` builds: a service is stored under its name, and a method under
its name. -/
def ServiceRegistry.WellNamed (r : ServiceRegistry T V) : Prop :=
  ∀ s svc, r.services.get s = some svc → svc.name = s ∧ ∀ m method, svc.methods.get m = some method → method.name = m

theorem get_foldl_scanMethod (k : Bytes) (infos : List (MethodInfo T V)) (methods : GoMap Bytes (Method T V)) :
    (infos.foldl scanMethod methods).get k =
      (((infos.filter fun m => m.accepted ∧ m.name = k).getLast?).map MethodInfo.toMethod).or (methods.get k) := by
  induction infos using List.reverseRecOn with
  | nil => rfl
  | append_singleton infos m ih =>
      rw [List.foldl_append, List.foldl_cons, List.foldl_nil, List.filter_append, scanMethod]
      by_cases hm : m.accepted ∧ m.name = k
      · obtain ⟨ha, rfl⟩ := hm
        simp [ha]
      · rw [List.filter_cons_of_neg (by simpa using hm), List.filter_nil, List.append_nil, ← ih]
        split_ifs with ha
        · exact GoMap.get_set_ne _ _ fun h => hm ⟨ha, h⟩
        · rfl

/-- After `Register(name, …)`, `GetMethod(name, m)` finds the last scanned method named `m` that
passes the signature checks, and every other service is as before. -/
theorem getMethod_register (r : ServiceRegistry T V) (name : Bytes) (infos : List (MethodInfo T V)) (s m : Bytes) :
    (r.register name infos).getMethod s m =
      if s = name then
        match (infos.filter fun i => i.accepted ∧ i.name = m).getLast? with
        | some i => .ok (⟨name, infos.foldl scanMethod []⟩, i.toMethod)
        | none => .error .methodNotFound
      else r.getMethod s m := by
  unfold ServiceRegistry.getMethod ServiceRegistry.getService ServiceRegistry.register
  dsimp only
  split_ifs with hs
  · subst hs
    rw [GoMap.get_set_self]
    dsimp only
    rw [except_ok_bind, get_foldl_scanMethod]
    cases (infos.filter fun i => i.accepted ∧ i.name = m).getLast? <;> rfl
  · rw [GoMap.get_set_ne _ _ (Ne.symm hs)]

theorem WellNamed.register {r : ServiceRegistry T V} (hr : r.WellNamed) (name : Bytes) (infos : List (MethodInfo T V)) :
    (r.register name infos).WellNamed := by
  intro s svc hsvc
  by_cases hs : name = s
  · subst hs
    simp only [ServiceRegistry.register, GoMap.get_set_self, Option.some.injEq] at hsvc
    subst hsvc
    refine ⟨rfl, fun m method hm => ?_⟩
    rw [get_foldl_scanMethod, GoMap.get_nil, Option.or_none] at hm
    obtain ⟨i, hi, rfl⟩ := Option.map_eq_some'.mp hm
    exact (of_decide_eq_true (List.mem_filter.mp (List.mem_of_getLast?_eq_some hi)).2).2
  · rw [ServiceRegistry.register, GoMap.get_set_ne _ _ hs] at hsvc
    exact hr s svc hsvc

/-- The frame `sendError` writes: an error frame carrying the error's text. -/
def errorFrame (requestID : UInt32) (text : Bytes) : Frame := { newFrame typeError requestID with payload := text }

section Server

variable (reg : ServiceRegistry T V) (codec : Codec T V) (meta : MetaCodec) (rf : Reflect T V)

/-- `handleRequest`: the frame it writes for a request frame. -/
def handleRequest (frame : Frame) : Frame :=
  match meta.unmarshal frame.metadata with
  | .error e => errorFrame frame.requestID (lit "invalid metadata: " ++ e)
  | .ok (service, method) =>
      match reg.getMethod service method with
      | .error e => errorFrame frame.requestID e.text
      | .ok (svc, m) =>
          match codec.decode (some m.argType) frame.payload with
          | .error e => errorFrame frame.requestID (lit "decode arg error: " ++ e)
          | .ok arg =>
              match reg.call rf svc.name m.name arg with
              | .error e => errorFrame frame.requestID e
              | .ok reply =>
                  match codec.encode (some reply) with
                  | .error e => errorFrame frame.requestID (lit "encode reply error: " ++ e)
                  | .ok data => { newFrame typeResponse frame.requestID with payload := data }

/-- `handlePing`: a pong with the ping's request ID. -/
def handlePing (frame : Frame) : Frame := newFrame typePong frame.requestID

/-- What the loop of `handleConn` writes for one decoded frame: requests and pings are
answered, any other type is only logged. -/
def respond (frame : Frame) : Option Frame :=
  if frame.type = typeRequest then some (handleRequest reg codec meta rf frame)
  else if frame.type = typePing then some (handlePing frame)
  else none

/-- `Server.handleConn`: the bytes written back on a connection for the bytes the client sends.
The loop reads frame after frame as `readFrames` does, answers each, and returns at the first
frame it cannot read. -/
def handleConn (stream : Bytes) : Bytes :=
  ((streamFrames stream).1.filterMap (respond reg codec meta rf)).flatMap Frame.encode

theorem handleRequest_requestID (frame : Frame) :
    (handleRequest reg codec meta rf frame).requestID = frame.requestID ∧ (handleRequest reg codec meta rf frame).Valid ∧
      (handleRequest reg codec meta rf frame).metadata = [] := by
  unfold handleRequest
  repeat' split
  all_goals exact ⟨rfl, ⟨rfl, rfl⟩, rfl⟩

/-- Every answer carries the request ID of the frame it answers, the protocol's magic and
version and no metadata; a request is answered by a response or an error, a ping by a pong. -/
theorem respond_eq_some {frame answer : Frame} (h : respond reg codec meta rf frame = some answer) :
    answer.requestID = frame.requestID ∧ answer.Valid ∧ answer.metadata = [] ∧
      (frame.type = typeRequest ∧ answer = handleRequest reg codec meta rf frame ∨
        frame.type = typePing ∧ answer = newFrame typePong frame.requestID) := by
  unfold respond at h
  split_ifs at h with hreq hping
  · cases h
    exact ⟨(handleRequest_requestID reg codec meta rf frame).1, (handleRequest_requestID reg codec meta rf frame).2.1,
      (handleRequest_requestID reg codec meta rf frame).2.2, .inl ⟨hreq, rfl⟩⟩
  · cases h
    exact ⟨rfl, ⟨rfl, rfl⟩, rfl, .inr ⟨hping, rfl⟩⟩

/-- On frames encoded one after the other, the connection writes one answer per request and
per ping, in order. -/
theorem handleConn_flatMap_encode (fs : List Frame) (hfs : ∀ f ∈ fs, f.Valid ∧ f.Fits) :
    handleConn reg codec meta rf (fs.flatMap Frame.encode) = (fs.filterMap (respond reg codec meta rf)).flatMap Frame.encode := by
  rw [handleConn, streamFrames, readFrames_flatMap_encode fs hfs _ le_rfl]

end Server

end FastServer.Rpc
