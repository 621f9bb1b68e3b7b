import ThriftRpc.Proofs.Rpc.Call

/-!
# Answers to a call

What becomes of a request over a connection that has not failed: the server stops if the request
nests too deep for it (`TooDeep`), and answers otherwise. An answer is left behind (`LeavesAnswer`)
by a oneway call for which the server has no handler, since the request does not say that nobody
waits, and by a call whose result nests deeper than the client reads.
-/

namespace ThriftRpc.Rpc

open Wire (Reads ReadsIf Writer run_bind)

/-- Every length of what either side sends in the course of the call fits its header, and the
result and the exceptions that the function declares have names of their own. -/
structure Transmissible (p : Processor) (name : String) (r : Client.Request) : Prop where
  sendable : r.Sendable
  handled : ∀ handler, p.handlers.find? name = some handler → r.function.oneway = false →
    (r.function.resultFields.map FieldDef.name).Nodup ∧
      p.Writable r.function (handler (.ofStruct r.function r.arguments))
  unknown : p.handlers.find? name = none →
    (Text.Utf8.encode s!"Unknown function {name}").length ≤ Writer.maxSize

/-- The arguments nest deeper than the server takes: it reads them for a handler, and skips them
if there is none. -/
def TooDeep (p : Processor) (name : String) (r : Client.Request) : Prop :=
  match p.handlers.find? name with
  | some _ => ¬ r.arguments.depth ≤ Codec.depthLimit
  | none => ¬ r.arguments.levels ≤ Wire.Reader.skipLimit

/-- The client does not read the answer of the server to its end: nobody waits for it, or the
result nests too deep. -/
def LeavesAnswer (p : Processor) (name : String) (r : Client.Request) : Prop :=
  match p.handlers.find? name with
  | some handler => r.function.oneway = false ∧
    ¬ p.Shallow r.function (handler (.ofStruct r.function r.arguments))
  | none => r.function.oneway = true

section Handler

variable {p : Processor} {name : String} {r : Client.Request}

theorem tooDeep_handler {handler : Handler} (h : p.handlers.find? name = some handler) :
    TooDeep p name r ↔ ¬ r.arguments.depth ≤ Codec.depthLimit := by
  unfold TooDeep
  rw [h]

theorem tooDeep_unknown (h : p.handlers.find? name = none) :
    TooDeep p name r ↔ ¬ r.arguments.levels ≤ Wire.Reader.skipLimit := by
  unfold TooDeep
  rw [h]

theorem leavesAnswer_handler {handler : Handler} (h : p.handlers.find? name = some handler) :
    LeavesAnswer p name r ↔ r.function.oneway = false ∧
      ¬ p.Shallow r.function (handler (.ofStruct r.function r.arguments)) := by
  unfold LeavesAnswer
  rw [h]

theorem leavesAnswer_unknown (h : p.handlers.find? name = none) :
    LeavesAnswer p name r ↔ r.function.oneway = true := by
  unfold LeavesAnswer
  rw [h]

end Handler

theorem Client.receive_nil (c : Client) (f : FunctionDef) :
    c.receive f [] = (.error (.wire (.stream .shortItem)), []) := by
  unfold receive
  rw [run_bind]
  rfl

/-- An answer has bytes. -/
theorem ne_nil_of_reads {c : Client} {f : FunctionDef} {reply : List UInt8}
    {result : Except CallFault (Option Value)} (h : Reads (c.receive f) reply result) :
    reply ≠ [] := by
  rintro rfl
  have hnil := (c.receive_nil f).symm.trans (h [])
  cases hnil

section Answer

variable {client : Client} {p : Processor} {name : String} {arguments : List Value}
  {r : Client.Request} (hclosed : Compile.Closed client.schema)
  (hcoded : ∀ e ∈ client.schema.enums, e.2.Coded) (hjoined : Joined client p)
  (hprepare : client.prepare name arguments = .ok r) (hr : Transmissible p name r)
include hclosed hcoded hjoined hprepare hr

/-- Who answers a request, and who reads the answer. -/
theorem exists_answer :
    ∃ m, Sends (client.send r) m ∧ (TooDeep p name r → p.Rejects m) ∧
      (¬ TooDeep p name r → ∃ ran reply, p.Answers m ran reply ∧
        (p.handlers.find? name = none → ∀ f, Reads (client.receive f) reply
          (.error (.application ⟨.unknownMethod, s!"Unknown function {name}"⟩))) ∧
        (r.function.oneway = true → (reply = [] ↔ ¬ LeavesAnswer p name r)) ∧
        (r.function.oneway = false → ∃ result, ReadsIf (¬ LeavesAnswer p name r) 1
          (.wire .depthLimit) (client.receive r.function) reply result)) := by
  cases hhandler : p.handlers.find? name with
  | some handler =>
    rw [tooDeep_handler hhandler, leavesAnswer_handler hhandler, not_not]
    obtain ⟨m, hsends, hrejects, hanswers⟩ :=
      answers_handler hclosed hcoded hjoined hprepare hr.sendable hhandler
    refine ⟨m, hsends, hrejects, fun hdepth => ?_⟩
    obtain ⟨hsilent, hreplies⟩ := hanswers hdepth
    cases honeway : r.function.oneway with
    | true =>
      refine ⟨_, [], hsilent honeway, fun h => (nomatch h), fun _ => ?_, fun h => (nomatch h)⟩
      simp
    | false =>
      obtain ⟨hnames, hwritable⟩ := hr.handled handler hhandler honeway
      obtain ⟨reply, hanswers, hread⟩ := hreplies honeway hnames hwritable
      refine ⟨_, reply, hanswers, fun h => (nomatch h), fun h => (nomatch h),
        fun _ => ⟨_, hread.congr ?_⟩⟩
      simp
  | none =>
    rw [tooDeep_unknown hhandler, leavesAnswer_unknown hhandler, not_not]
    obtain ⟨m, hsends, hrejects, hanswers⟩ :=
      answers_unknown hclosed hcoded hjoined hprepare hr.sendable hhandler (hr.unknown hhandler)
    refine ⟨m, hsends, hrejects, fun hlevels => ?_⟩
    obtain ⟨reply, hanswers, hread⟩ := hanswers hlevels
    refine ⟨[], reply, hanswers, fun _ => hread, fun honeway => ?_, fun honeway => ?_⟩
    · simp [honeway, ne_nil_of_reads (hread r.function)]
    · exact ⟨_, fun _ => hread r.function, fun hnot => absurd (by simp [honeway]) hnot⟩

end Answer

namespace Connection

section Call

variable {client : Client} {p : Processor} {name : String} {arguments : List Value}
  {r : Client.Request} (hclosed : Compile.Closed client.schema)
  (hcoded : ∀ e ∈ client.schema.enums, e.2.Coded) (hjoined : Joined client p)
  (hprepare : client.prepare name arguments = .ok r) (hr : Transmissible p name r)
include hclosed hcoded hjoined hprepare hr

/-- A request that is too deep stops the server. -/
theorem call_tooDeep (h : TooDeep p name r) (unread : List UInt8) (runs : List HandlerRun) :
    ((behind unread runs).call client p name arguments).2.failed ≠ none := by
  obtain ⟨m, hsends, hrejects, -⟩ := exists_answer hclosed hcoded hjoined hprepare hr
  exact call_rejected hprepare hsends (hrejects h)

variable (h : ¬ TooDeep p name r)
include h

/-- After any other request the server goes on. -/
theorem call_behind (unread : List UInt8) (runs : List HandlerRun) :
    ∃ result left ran, (behind unread runs).call client p name arguments =
      (result, behind left (runs ++ ran)) := by
  obtain ⟨m, hsends, -, hanswers⟩ := exists_answer hclosed hcoded hjoined hprepare hr
  obtain ⟨ran, reply, hanswers, -⟩ := hanswers h
  cases honeway : r.function.oneway with
  | true => exact ⟨_, _, ran, call_oneway hprepare hsends hanswers honeway⟩
  | false =>
    cases hread : client.receive r.function (unread ++ reply) with
    | mk answer left =>
      cases answer with
      | ok result => exact ⟨_, left, ran, call_two_way hprepare hsends hanswers honeway hread⟩
      | error fault =>
        exact ⟨_, left, ran, call_unreadable hprepare hsends hanswers honeway hread⟩

/-- The result of a call over an idle connection does not depend on what came before, and the
connection is idle again exactly if the call does not leave its answer behind. -/
theorem call_idle_iff :
    ∃ result unread ran, (∀ runs, (idle runs).call client p name arguments =
        (result, behind unread (runs ++ ran))) ∧
      (unread = [] ↔ ¬ LeavesAnswer p name r) := by
  obtain ⟨m, hsends, -, hanswers⟩ := exists_answer hclosed hcoded hjoined hprepare hr
  obtain ⟨ran, reply, hanswers, -, hsilent, hreply⟩ := hanswers h
  cases honeway : r.function.oneway with
  | true =>
    exact ⟨.ok none, reply, ran, fun runs => call_oneway hprepare hsends hanswers honeway,
      hsilent honeway⟩
  | false =>
    obtain ⟨result, hread⟩ := hreply honeway
    by_cases hleaves : LeavesAnswer p name r
    · obtain ⟨left, hleft, hrefused⟩ := hread.refuses (not_not.mpr hleaves) []
      rw [List.append_nil, List.append_nil] at hrefused
      refine ⟨_, left, ran, fun runs => call_unreadable hprepare hsends hanswers honeway hrefused,
        fun hnil => ?_, fun hnot => absurd hleaves hnot⟩
      cases hnil
      cases hleft
    · exact ⟨result, [], ran,
        fun runs => call_idle hprepare hsends hanswers honeway (hread.reads hleaves),
        fun _ => hleaves, fun _ => rfl⟩

end Call

end Connection

end ThriftRpc.Rpc
