import ThriftRpc.Proofs.Rpc.Answer

/-!
# Runs of calls

Over one connection a client and a server stay in step as long as each answer is read by the call it
belongs to. When the server handles every request of a run, the run stays in step exactly if no call
of it leaves its answer behind (`calls_in_step_iff`); a oneway call for which the server has no
handler does, and the next call is given its answer (`calls_after_unattended`).
-/

namespace ThriftRpc.Rpc.Connection

section Run

variable {client : Client} {p : Processor}

theorem calls_cons (c : Connection) (name : String) (arguments : List Value)
    (rest : List (String × List Value)) :
    c.calls client p ((name, arguments) :: rest) =
      ((c.call client p name arguments).1 ::
          ((c.call client p name arguments).2.calls client p rest).1,
        ((c.call client p name arguments).2.calls client p rest).2) := rfl

theorem send_failed (client : Client) {c : Connection} (h : c.failed ≠ none) (r : Client.Request) :
    ∃ fault, (c.send client r).1 = .error fault ∧ (c.send client r).2.failed ≠ none := by
  unfold send
  have hsome : c.failed.isSome = true := Option.isSome_iff_ne_none.mpr h
  split
  · exact ⟨_, rfl, h⟩
  · rw [if_pos hsome]
    exact ⟨_, rfl, h⟩

/-- A server that has stopped stays so. -/
theorem call_failed {c : Connection} (h : c.failed ≠ none) (name : String)
    (arguments : List Value) : (c.call client p name arguments).2.failed ≠ none := by
  unfold call
  split
  · exact h
  · next r _ =>
    obtain ⟨fault, hsend, hfailed⟩ := send_failed client h r
    rw [← Prod.eta (c.send client r), hsend]
    exact hfailed

theorem calls_failed {c : Connection} (h : c.failed ≠ none)
    (calls : List (String × List Value)) : (c.calls client p calls).2.failed ≠ none := by
  induction calls generalizing c with
  | nil => exact h
  | cons call rest ih => exact ih (call_failed h call.1 call.2)

/-- Each request that is made by the calls satisfies `P`. -/
def EachRequest (client : Client) (P : String → Client.Request → Prop)
    (calls : List (String × List Value)) : Prop :=
  ∀ call ∈ calls, ∀ r, client.prepare call.1 call.2 = .ok r → P call.1 r

theorem eachRequest_cons {P : String → Client.Request → Prop} {name : String}
    {arguments : List Value} {rest : List (String × List Value)} :
    EachRequest client P ((name, arguments) :: rest) ↔
      (∀ r, client.prepare name arguments = .ok r → P name r) ∧ EachRequest client P rest :=
  List.forall_mem_cons

theorem eachRequest_nil {P : String → Client.Request → Prop} : EachRequest client P [] :=
  fun _ hcall => (nomatch hcall)

theorem eachRequest_prepared {P : String → Client.Request → Prop} {name : String}
    {arguments : List Value} {rest : List (String × List Value)} {r : Client.Request}
    (hprepare : client.prepare name arguments = .ok r) :
    EachRequest client P ((name, arguments) :: rest) ↔ P name r ∧ EachRequest client P rest := by
  rw [eachRequest_cons]
  simp only [hprepare, Except.ok.injEq, forall_eq']

/-- A call that cannot be prepared sends nothing. -/
theorem call_unprepared {name : String} {arguments : List Value} {fault : CallFault}
    (h : client.prepare name arguments = .error fault) (c : Connection) :
    c.call client p name arguments = (.error fault, c) := by
  unfold call
  rw [h]

section Closed

variable (hclosed : Compile.Closed client.schema) (hcoded : ∀ e ∈ client.schema.enums, e.2.Coded)
  (hjoined : Joined client p)
include hclosed hcoded hjoined

/-- The server handles a whole run exactly if no request of it is too deep, in step or not. -/
theorem calls_served_iff {calls : List (String × List Value)}
    (hcalls : EachRequest client (Transmissible p) calls) (unread : List UInt8)
    (runs : List HandlerRun) :
    ((behind unread runs).calls client p calls).2.failed = none ↔
      EachRequest client (fun name r => ¬ TooDeep p name r) calls := by
  induction calls generalizing unread runs with
  | nil => exact ⟨fun _ => eachRequest_nil, fun _ => rfl⟩
  | cons call rest ih =>
    obtain ⟨name, arguments⟩ := call
    rw [eachRequest_cons] at hcalls ⊢
    rw [calls_cons]
    cases hprepare : client.prepare name arguments with
    | error fault =>
      rw [call_unprepared hprepare, ih hcalls.2]
      exact ⟨fun h => ⟨fun r hr => (nomatch hr), h⟩, And.right⟩
    | ok r =>
      have hr := hcalls.1 r hprepare
      by_cases hdeep : TooDeep p name r
      · have hfailed := call_tooDeep hclosed hcoded hjoined hprepare hr hdeep unread runs
        exact ⟨fun h => absurd h (calls_failed hfailed rest), fun h => absurd hdeep (h.1 r rfl)⟩
      · obtain ⟨result, left, ran, hcall⟩ :=
          call_behind hclosed hcoded hjoined hprepare hr hdeep unread runs
        rw [hcall, ih hcalls.2]
        simp only [Except.ok.injEq, forall_eq', hdeep, not_false_eq_true, true_and]

end Closed

/-! ## Runs in step -/

/-- After each call of the run the client has read all that came back. -/
def InStep (client : Client) (p : Processor) (c : Connection) (calls : List (String × List Value)) :
    Prop :=
  ∀ before, before <+: calls → (c.calls client p before).2.client.incoming = []

theorem inStep_cons {c : Connection} (hc : c.client.incoming = []) (name : String)
    (arguments : List Value) (rest : List (String × List Value)) :
    InStep client p c ((name, arguments) :: rest) ↔
      InStep client p (c.call client p name arguments).2 rest := by
  constructor
  · intro h before hbefore
    exact h ((name, arguments) :: before) (List.cons_prefix_cons.mpr ⟨rfl, hbefore⟩)
  · intro h before hbefore
    cases before with
    | nil => exact hc
    | cons call before =>
      obtain ⟨rfl, htail⟩ := List.cons_prefix_cons.mp hbefore
      exact h before htail

/-- What a call over an idle connection returns, and what it leaves unread. -/
theorem call_idle_cases (hclosed : Compile.Closed client.schema)
    (hcoded : ∀ e ∈ client.schema.enums, e.2.Coded) (hjoined : Joined client p) {name : String}
    {arguments : List Value}
    (hr : ∀ r, client.prepare name arguments = .ok r → Transmissible p name r)
    (hserved : ∀ r, client.prepare name arguments = .ok r → ¬ TooDeep p name r) :
    ∃ result unread ran, (∀ runs, (idle runs).call client p name arguments =
        (result, behind unread (runs ++ ran))) ∧
      (unread = [] ↔ ∀ r, client.prepare name arguments = .ok r → ¬ LeavesAnswer p name r) := by
  cases hprepare : client.prepare name arguments with
  | error fault =>
    refine ⟨.error fault, [], [], fun runs => ?_, fun _ r h => (nomatch h), fun _ => rfl⟩
    rw [call_unprepared hprepare, List.append_nil]
    rfl
  | ok r =>
    obtain ⟨result, unread, ran, hcall, hunread⟩ := call_idle_iff hclosed hcoded hjoined hprepare
      (hr r hprepare) (hserved r hprepare)
    refine ⟨result, unread, ran, hcall, hunread.trans ?_⟩
    simp only [Except.ok.injEq, forall_eq']

/-- A two-way call after a oneway one without a handler is given the answer to that one. -/
theorem calls_after_unattended (hclosed : Compile.Closed client.schema)
    (hcoded : ∀ e ∈ client.schema.enums, e.2.Coded) (hjoined : Joined client p)
    (first second : String × List Value) {r r' : Client.Request}
    (hprepare : client.prepare first.1 first.2 = .ok r) (hr : Transmissible p first.1 r)
    (hdeep : ¬ TooDeep p first.1 r) (honeway : r.function.oneway = true)
    (hhandler : p.handlers.find? first.1 = none)
    (hprepare' : client.prepare second.1 second.2 = .ok r') (hr' : Transmissible p second.1 r')
    (hdeep' : ¬ TooDeep p second.1 r') (honeway' : r'.function.oneway = false)
    (runs : List HandlerRun) :
    ((idle runs).calls client p [first, second]).1 =
      [.ok none, .error (.application ⟨.unknownMethod, s!"Unknown function {first.1}"⟩)] := by
  obtain ⟨m, hsends, -, hanswers⟩ := exists_answer hclosed hcoded hjoined hprepare hr
  obtain ⟨ran, stale, hanswers, hstale, -⟩ := hanswers hdeep
  obtain ⟨m', hsends', -, hanswers'⟩ := exists_answer hclosed hcoded hjoined hprepare' hr'
  obtain ⟨ran', reply, hanswers', -⟩ := hanswers' hdeep'
  have hcall : (idle runs).call client p first.1 first.2 = (.ok none, behind stale (runs ++ ran)) :=
    call_oneway hprepare hsends hanswers honeway
  rw [calls_cons, hcall, calls_cons, call_two_way hprepare' hsends' hanswers' honeway'
    (hstale hhandler r'.function reply)]
  rfl

/-- A run that the server handles to its end stays in step exactly if no call of it leaves its
answer behind; then every call returns what it would return on a connection of its own. -/
theorem calls_in_step_iff {config : Compile.Config} {library : Compile.Library}
    {root : Option Files.Path} {nodes : List Idl.Node}
    (hcompile : Compile.compile config library root nodes = .ok client.schema)
    (hcoded : ∀ e ∈ client.schema.enums, e.2.Coded) (hjoined : Joined client p)
    (calls : List (String × List Value)) (hcalls : EachRequest client (Transmissible p) calls)
    (runs : List HandlerRun)
    (hserved : ((idle runs).calls client p calls).2.failed = none) :
    (InStep client p (idle runs) calls ↔
        EachRequest client (fun name r => ¬ LeavesAnswer p name r) calls) ∧
      (InStep client p (idle runs) calls →
        ((idle runs).calls client p calls).1 =
          calls.map fun call => ((idle []).call client p call.1 call.2).1) := by
  obtain ⟨_, _, _, hclosed, -⟩ := Compile.compile_closed hcompile
  have hserved' := (calls_served_iff hclosed hcoded hjoined hcalls [] runs).mp hserved
  clear hserved
  induction calls generalizing runs with
  | nil =>
    refine ⟨⟨fun _ => eachRequest_nil, fun _ before hbefore => ?_⟩, fun _ => rfl⟩
    rw [List.prefix_nil.mp hbefore]
    rfl
  | cons call rest ih =>
    obtain ⟨name, arguments⟩ := call
    rw [eachRequest_cons] at hcalls hserved' ⊢
    obtain ⟨result, unread, ran, hcall, hunread⟩ :=
      call_idle_cases hclosed hcoded hjoined hcalls.1 hserved'.1
    rw [inStep_cons rfl, hcall runs, ← hunread]
    by_cases hnil : unread = []
    · subst hnil
      obtain ⟨hiff, hresults⟩ := ih hcalls.2 (runs ++ ran) hserved'.2
      rw [calls_cons, hcall runs, List.map_cons, hcall []]
      exact ⟨hiff.trans ⟨fun h => ⟨rfl, h⟩, And.right⟩, fun h => congrArg (result :: ·) (hresults h)⟩
    · have hnot : ¬ InStep client p (behind unread (runs ++ ran)) rest :=
        fun h => hnil (h [] List.nil_prefix)
      exact ⟨⟨fun h => absurd h hnot, fun h => absurd h.1 hnil⟩, fun h => absurd h hnot⟩

end Run

/-! ## A service out of step -/

section Calc

/-- A service with a oneway function. -/
def calcProgram : List Idl.Node :=
  [.service "Calc" none
    [⟨"ping", none, [], [], true⟩,
      ⟨"add", some (.prim .i32),
        [⟨some 1, none, .prim .i32, "a", none⟩, ⟨some 2, none, .prim .i32, "b", none⟩], [], false⟩]]

def ping : FunctionDef := ⟨"ping", none, [], [], true⟩

def add : FunctionDef :=
  ⟨"add", some (.prim .i32), [⟨1, "a", .prim .i32, none, none⟩, ⟨2, "b", .prim .i32, none, none⟩],
    [], false⟩

def calcClient : Client := ⟨{ services := [⟨"Calc", none, [ping, add]⟩] }, "Calc"⟩

def sum : Handler := fun a => do
  let x : Int32 ← a.value Int32 0
  let y : Int32 ← a.value Int32 1
  return some (.i32 (x + y))

/-- A server that adds and has no handler for `ping`. -/
def calcProcessor : Processor := ⟨calcClient.schema, "Calc", [("add", sum)]⟩

theorem compile_calc : Compile.compile {} (.listed []) none calcProgram = .ok calcClient.schema :=
  rfl

def pingRequest : Client.Request := ⟨ping, .struct "ping_args" []⟩

def addRequest : Client.Request := ⟨add, .struct "add_args" [("a", .i32 1), ("b", .i32 2)]⟩

theorem prepare_ping : calcClient.prepare "ping" [] = .ok pingRequest := rfl

theorem prepare_add : calcClient.prepare "add" [.i32 1, .i32 2] = .ok addRequest := rfl

theorem handler_add : calcProcessor.handlers.find? "add" = some sum := rfl

theorem preparedResult_add :
    calcProcessor.preparedResult add (sum (.ofStruct add addRequest.arguments)) =
      .ok (.struct "add_result" [("success", .i32 3)]) := rfl

theorem ping_transmissible : Transmissible calcProcessor "ping" pingRequest where
  sendable := ⟨by decide, by decide⟩
  handled := fun _ h => (nomatch h)
  unknown := fun _ => by decide

theorem ping_not_tooDeep : ¬ TooDeep calcProcessor "ping" pingRequest :=
  fun h => (tooDeep_unknown rfl).mp h (by decide)

theorem ping_leavesAnswer : LeavesAnswer calcProcessor "ping" pingRequest := rfl

theorem add_returnable : calcProcessor.Returnable add (sum (.ofStruct add addRequest.arguments)) where
  result := fun v hv => by cases preparedResult_add.symm.trans hv; decide
  failure := fun text h => by cases preparedResult_add.symm.trans h

theorem add_transmissible : Transmissible calcProcessor "add" addRequest where
  sendable := ⟨by decide, by decide⟩
  handled := fun handler h _ => by
    cases h
    exact ⟨by decide, add_returnable.writable⟩
  unknown := fun h => (nomatch h)

theorem add_not_tooDeep : ¬ TooDeep calcProcessor "add" addRequest :=
  fun h => (tooDeep_handler handler_add).mp h (by decide)

theorem add_not_leavesAnswer : ¬ LeavesAnswer calcProcessor "add" addRequest :=
  fun h => ((leavesAnswer_handler handler_add).mp h).2 add_returnable.shallow

theorem calc_closed : Compile.Closed calcClient.schema := by
  obtain ⟨_, _, _, h, -⟩ := Compile.compile_closed compile_calc
  exact h

theorem calc_coded : ∀ e ∈ calcClient.schema.enums, e.2.Coded := by decide

theorem calc_joined : Joined calcClient calcProcessor := ⟨rfl, rfl⟩

theorem call_add :
    ((idle []).call calcClient calcProcessor "add" [.i32 1, .i32 2]).1 = .ok (some (.i32 3)) := by
  have hcall := call_replied calc_closed calc_coded calc_joined prepare_add
    add_transmissible.sendable handler_add (by decide) rfl (by decide) add_returnable []
  have hreplied : calcProcessor.replied add (sum (.ofStruct add addRequest.arguments)) =
      .ok (some (.i32 3)) := by
    unfold Processor.replied
    rw [preparedResult_add]
    rfl
  rw [hcall]
  exact hreplied

/-- The sum is lost behind the exception that answers `ping`. -/
theorem add_after_ping :
    ((idle []).call calcClient calcProcessor "add" [.i32 1, .i32 2]).1 = .ok (some (.i32 3)) ∧
      ¬ InStep calcClient calcProcessor (idle []) [("ping", []), ("add", [.i32 1, .i32 2])] ∧
      ((idle []).calls calcClient calcProcessor [("ping", []), ("add", [.i32 1, .i32 2])]).1 =
        [.ok none, .error (.application ⟨.unknownMethod, "Unknown function ping"⟩)] := by
  refine ⟨call_add, fun h => ?_, ?_⟩
  · obtain ⟨result, unread, ran, hcall, hunread⟩ := call_idle_iff calc_closed calc_coded calc_joined
      prepare_ping ping_transmissible ping_not_tooDeep
    have hleft := h [("ping", [])] (List.cons_prefix_cons.mpr ⟨rfl, List.nil_prefix⟩)
    rw [calls_cons, hcall []] at hleft
    exact hunread.mp hleft ping_leavesAnswer
  · exact calls_after_unattended calc_closed calc_coded calc_joined ("ping", [])
      ("add", [.i32 1, .i32 2]) prepare_ping ping_transmissible ping_not_tooDeep rfl rfl prepare_add
      add_transmissible add_not_tooDeep rfl []

theorem calls_in_step_calc :
    InStep calcClient calcProcessor (idle []) [("add", [.i32 1, .i32 2]), ("add", [.i32 1, .i32 2])] ∧
      ((idle []).calls calcClient calcProcessor
        [("add", [.i32 1, .i32 2]), ("add", [.i32 1, .i32 2])]).1 =
          [.ok (some (.i32 3)), .ok (some (.i32 3))] ∧
      ¬ InStep calcClient calcProcessor (idle []) [("add", [.i32 1, .i32 2]), ("ping", [])] := by
  have hadds {P : String → Client.Request → Prop} (h : P "add" addRequest) :
      EachRequest calcClient P [("add", [.i32 1, .i32 2]), ("add", [.i32 1, .i32 2])] :=
    (eachRequest_prepared prepare_add).mpr
      ⟨h, (eachRequest_prepared prepare_add).mpr ⟨h, eachRequest_nil⟩⟩
  have hboth {P : String → Client.Request → Prop} (h : P "add" addRequest)
      (h' : P "ping" pingRequest) :
      EachRequest calcClient P [("add", [.i32 1, .i32 2]), ("ping", [])] :=
    (eachRequest_prepared prepare_add).mpr
      ⟨h, (eachRequest_prepared prepare_ping).mpr ⟨h', eachRequest_nil⟩⟩
  have hserved {calls : List (String × List Value)}
      (hcalls : EachRequest calcClient (Transmissible calcProcessor) calls)
      (h : EachRequest calcClient (fun name r => ¬ TooDeep calcProcessor name r) calls) :
      ((idle []).calls calcClient calcProcessor calls).2.failed = none :=
    (calls_served_iff calc_closed calc_coded calc_joined hcalls [] []).mpr h
  obtain ⟨hkept, hresults⟩ := calls_in_step_iff compile_calc calc_coded calc_joined
    [("add", [.i32 1, .i32 2]), ("add", [.i32 1, .i32 2])] (hadds add_transmissible) []
    (hserved (hadds add_transmissible) (hadds add_not_tooDeep))
  obtain ⟨hlost, -⟩ := calls_in_step_iff compile_calc calc_coded calc_joined
    [("add", [.i32 1, .i32 2]), ("ping", [])] (hboth add_transmissible ping_transmissible) []
    (hserved (hboth add_transmissible ping_transmissible)
      (hboth add_not_tooDeep ping_not_tooDeep))
  have hin := hkept.mpr (hadds add_not_leavesAnswer)
  refine ⟨hin, ?_, fun h => hlost.mp h ("ping", []) (by simp) pingRequest prepare_ping
    ping_leavesAnswer⟩
  rw [hresults hin]
  exact congrArg (fun result => [result, result]) call_add

end Calc

end Connection

end ThriftRpc.Rpc
