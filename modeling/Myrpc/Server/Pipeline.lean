import Myrpc.Server.ServeConn

/-!
# What one request gets back

`serveAlone` is one request served on its own: `readRequest` on the context
`getContext` handed out, then `call`, or the inline error answer, as `ServeConn`
dispatches. The hooks and the handler may leave the context another view, but nothing
else of it. Every stage is summed up once by a lemma that says all it can do, and the
request's answer follows from those alone:

* `readRequestHeader_cases`, `readRequestBody_spec`, `readRequest_cases`: the read stages
  write nothing and report no failing error before `readRequest`'s own, keep `resp`, and
  stop reading exactly when the header was not read.
* `writeResponse_spec`, `sendResponse_spec`, `call_spec`: the one write carries the request's `Seq`
  and `ServiceMethod`; its `Error` is non-empty and the reply is withheld exactly when an
  error was passed in or a `PreWriteResponse` hook failed, and the reply written is the
  one the `PreWriteResponse` hooks leave.
* `serveAlone_answers`: when every error has a non-empty message, a request whose header
  was read is answered once and as `Answers` asks, and any other request is not answered.
-/

namespace Myrpc.Server

/-! ## What a request is answered with -/

/-- A codec write. -/
def Act.isWrite : Act → Bool
  | .writeResponse _ _ => true
  | _ => false

/-- An error that makes the answer an error response: `readRequest`'s, the handler's or
a `PreWriteResponse` hook's. -/
def Act.fails : Act → Bool
  | .readRequest (some _) => true
  | .call _ (some _) => true
  | .hook .preWriteResponse _ (some _) => true
  | .hook .preWriteResponseService _ (some _) => true
  | _ => false

/-- The body is the reply. -/
def Body.isReply : Body → Bool
  | .reply _ => true
  | _ => false

/-- Acts that neither write nor report a failing error. -/
def Quiet (acts : List Act) : Prop := ∀ a ∈ acts, a.isWrite = false ∧ a.fails = false

/-- The hook and the codec reached `ReadRequestHeader`, which decoded `req`. -/
def Script.ReadsHeader (sc : Script) (req : Request) : Prop :=
  sc.hook .preReadRequestHeader = none ∧ sc.readRequestHeader = .ok req

/-- Every error the hooks, `URIParse` and the handler return has a non-empty message. -/
structure Script.NonEmptyErrors (sc : Script) : Prop where
  hook : ∀ h, sc.hook h ≠ some ""
  uriParse : sc.uriParse.2.2 ≠ some ""
  call : sc.call.2 ≠ some ""

/-- What the `PreWriteResponse` hooks, the server's and then the service's, leave in a
reply object that held `v`. -/
def Script.writtenReply (sc : Script) (v : Nat) : Nat :=
  sc.hookReply .preWriteResponseService (sc.hookReply .preWriteResponse v)

/-- The acts of a request whose header was read as `req`, once it is done: exactly one
write, of a response with `req`'s `Seq` and `ServiceMethod`, whose `Error` is non-empty
exactly when an error failed the request, and whose body is a reply exactly when none
did: the handler's reply, as the `PreWriteResponse` hooks left it. -/
def Answers (sc : Script) (req : Request) (acts : List Act) : Prop :=
  ∃ resp body, acts.filter Act.isWrite = [.writeResponse resp body] ∧ resp.seq = req.seq ∧
    resp.serviceMethod = req.serviceMethod ∧ (resp.error ≠ "" ↔ acts.any Act.fails) ∧
    (body.isReply ↔ acts.any Act.fails = false) ∧
    (acts.any Act.fails = false → body = .reply (sc.writtenReply sc.call.1))

/-- One request served on its own from the context `ctx`: `readRequest`, then the
`call` goroutine, or the error answer `ServeConn` sends at once. -/
def serveAlone (reg : Registry) (sc : Script) (ctx : Context) : Except String (List Act) :=
  let r := readRequest sc reg ctx
  match r.err with
  | none => (call sc r.ctx).map fun s => r.acts ++ s.2
  | some e =>
    if r.keepReading && !r.notSend then (sendResponse sc r.ctx e).map fun s => r.acts ++ s.2
    else .ok r.acts

/-! ## Lists of acts -/

@[simp] theorem quiet_nil : Quiet [] := by simp [Quiet]

@[simp] theorem quiet_append {xs ys : List Act} : Quiet (xs ++ ys) ↔ Quiet xs ∧ Quiet ys := by
  simp only [Quiet, List.mem_append]
  exact ⟨fun h => ⟨fun a ha => h a (.inl ha), fun a ha => h a (.inr ha)⟩,
    fun h a ha => ha.elim (h.1 a) (h.2 a)⟩

@[simp] theorem quiet_cons {a : Act} {xs : List Act} :
    Quiet (a :: xs) ↔ (a.isWrite = false ∧ a.fails = false) ∧ Quiet xs := by
  simp [Quiet]

theorem Quiet.filter_isWrite {xs : List Act} (h : Quiet xs) : xs.filter Act.isWrite = [] :=
  List.filter_eq_nil_iff.mpr fun a ha => by simp [(h a ha).1]

theorem Quiet.any_fails {xs : List Act} (h : Quiet xs) : xs.any Act.fails = false :=
  List.any_eq_false.mpr fun a ha => by simp [(h a ha).2]

@[simp] theorem String.append_eq_empty_iff (s e : String) : s ++ e = "" ↔ s = "" ∧ e = "" := by
  obtain ⟨s⟩ := s
  obtain ⟨e⟩ := e
  simp [String.ext_iff]

theorem String.length_pos_iff (s : String) : s.length > 0 ↔ s ≠ "" := by
  obtain ⟨s⟩ := s
  simp [String.ext_iff, String.length, List.length_pos]

/-! ## The hooks -/

/-- Everything `runHooks` can do: the first hook alone, or, when it passed and there is a
service, both; either way the context keeps all but its view. -/
theorem runHooks_cases (sc : Script) (ctx : Context) (h h' : Hook) :
    (∃ v, (runHooks sc ctx h h').1 = ctx.setView v) ∧
      (((sc.hook h).isSome ∨ ctx.service = none) ∧
          (runHooks sc ctx h h').2 = ([.hook h ctx.view (sc.hook h)], sc.hook h) ∨
        (sc.hook h = none ∧ ctx.service.isSome ∧ ∃ v, (runHooks sc ctx h h').2 =
          ([.hook h ctx.view none, .hook h' v (sc.hook h')], sc.hook h'))) := by
  unfold runHooks
  split
  · rename_i svc hh hs
    exact ⟨⟨_, rfl⟩, .inr ⟨hh, by simp [hs], _, by simp only [runHook, hh]; rfl⟩⟩
  · rename_i e _ hne
    refine ⟨⟨_, rfl⟩, .inl ⟨?_, by simp [runHook]⟩⟩
    cases hh : sc.hook h <;> cases hs : ctx.service <;> simp_all

/-! ## Reading -/

/-- Everything `readRequestHeader` can do: without a read header it stops reading with
an error; with one it goes on with `req` decoded, and with an error only of a non-empty
message, or with a service found. It writes nothing and keeps `resp` and `replyv`. -/
theorem readRequestHeader_cases (reg : Registry) {sc : Script} (hne : sc.NonEmptyErrors)
    (ctx : Context) :
    Quiet (readRequestHeader sc reg ctx).acts ∧ (readRequestHeader sc reg ctx).ctx.resp = ctx.resp ∧
      (readRequestHeader sc reg ctx).ctx.replyv = ctx.replyv ∧
      (((∀ req, ¬ sc.ReadsHeader req) ∧ (readRequestHeader sc reg ctx).keepReading = false ∧
          (readRequestHeader sc reg ctx).err.isSome) ∨
        (∃ req, sc.ReadsHeader req ∧ (readRequestHeader sc reg ctx).keepReading = true ∧
          (readRequestHeader sc reg ctx).notSend = false ∧ (readRequestHeader sc reg ctx).ctx.req = req ∧
          (readRequestHeader sc reg ctx).err ≠ some "" ∧
          ((readRequestHeader sc reg ctx).err = none → (readRequestHeader sc reg ctx).ctx.service.isSome))) := by
  have hpost := hne.hook .postReadRequestHeader
  have huri := hne.uriParse
  simp only [readRequestHeader, runHook]
  rcases hpre : sc.hook .preReadRequestHeader with _ | e
  · rcases hrh : sc.readRequestHeader with _ | _ | e | req
    iterate 3 exact ⟨by simp [Act.isWrite, Act.fails], rfl, rfl,
      .inl ⟨fun req h => by simp [Script.ReadsHeader, hrh] at h, rfl, rfl⟩⟩
    have hr : sc.ReadsHeader req := ⟨hpre, hrh⟩
    dsimp only
    repeat' split
    all_goals exact ⟨by simp [Act.isWrite, Act.fails], rfl, rfl,
      .inr ⟨req, hr, rfl, rfl, rfl, by simp_all, by simp_all⟩⟩
  · exact ⟨by simp [Act.isWrite, Act.fails], rfl, rfl,
      .inl ⟨fun req h => by simp [Script.ReadsHeader, hpre] at h, rfl, rfl⟩⟩

theorem postReadRequestBody_spec {sc : Script} (hne : sc.NonEmptyErrors) (ctx : Context) :
    (∃ v, (postReadRequestBody sc ctx).1 = ctx.setView v) ∧ Quiet (postReadRequestBody sc ctx).2.1 ∧
      (postReadRequestBody sc ctx).2.2 ≠ some "" := by
  have h3 := hne.hook .postReadRequestBodyService
  have h4 := hne.hook .postReadRequestBody
  unfold postReadRequestBody
  rcases hs : ctx.service with _ | svc <;> simp only [runHook]
  · exact ⟨⟨_, rfl⟩, by simp [Act.isWrite, Act.fails], h4⟩
  · split
    · exact ⟨⟨_, rfl⟩, by simp [Act.isWrite, Act.fails], h4⟩
    · rename_i e he
      exact ⟨⟨_, rfl⟩, by simp [Act.isWrite, Act.fails], by simp_all⟩

/-- `readRequestBody` writes nothing, keeps `req`, `resp`, `replyv` and the service, and
fails only with a non-empty message. -/
theorem readRequestBody_spec {sc : Script} (hne : sc.NonEmptyErrors) (ctx : Context)
    (decode : Bool) :
    Quiet (readRequestBody sc ctx decode).2.1 ∧ (readRequestBody sc ctx decode).1.req = ctx.req ∧
      (readRequestBody sc ctx decode).1.resp = ctx.resp ∧
      (readRequestBody sc ctx decode).1.replyv = ctx.replyv ∧
      (readRequestBody sc ctx decode).1.service = ctx.service ∧
      (readRequestBody sc ctx decode).2.2 ≠ some "" := by
  obtain ⟨⟨v, hv⟩, hcase⟩ := runHooks_cases sc ctx .preReadRequestBody .preReadRequestBodyService
  have hpre : Quiet (runHooks sc ctx .preReadRequestBody .preReadRequestBodyService).2.1 ∧
      (runHooks sc ctx .preReadRequestBody .preReadRequestBodyService).2.2 ≠ some "" := by
    rcases hcase with ⟨-, h⟩ | ⟨-, -, _, h⟩ <;> simp [h, Act.isWrite, Act.fails, hne.hook]
  simp only [readRequestBody]
  generalize runHooks sc ctx .preReadRequestBody .preReadRequestBodyService = p at hv hpre ⊢
  obtain ⟨pctx, pre, _ | e⟩ := p <;> dsimp only at hv hpre ⊢ <;> subst hv
  · cases hrb : sc.readRequestBody with
    | error e => simp_all [Act.isWrite, Act.fails]
    | ok x =>
      dsimp only
      generalize hq : postReadRequestBody sc _ = q
      obtain ⟨⟨w, hw⟩, hq', he⟩ := postReadRequestBody_spec hne
        (if decode then { ctx.setView v with argv := some x } else ctx.setView v)
      rw [hq] at hw hq' he
      obtain ⟨qctx, post, _ | e⟩ := q <;> dsimp only at hw hq' he ⊢ <;> subst hw <;>
        cases decode <;> simp_all [Act.isWrite, Act.fails]
  · simp_all

/-- Everything `readRequest` can do: it ends with the act of what it returned after
quiet acts, keeps `resp`, and stops reading exactly when the header was not read;
otherwise `req` is decoded, an error has a non-empty message, and without one a service
was found and the reply value is allocated. -/
theorem readRequest_cases (reg : Registry) {sc : Script} (hne : sc.NonEmptyErrors)
    (ctx : Context) :
    (∃ xs, (readRequest sc reg ctx).acts = xs ++ [.readRequest (readRequest sc reg ctx).err] ∧
        Quiet xs) ∧ (readRequest sc reg ctx).ctx.resp = ctx.resp ∧
      (((∀ req, ¬ sc.ReadsHeader req) ∧ (readRequest sc reg ctx).keepReading = false ∧
          (readRequest sc reg ctx).err.isSome) ∨
        (∃ req, sc.ReadsHeader req ∧ (readRequest sc reg ctx).keepReading = true ∧
          (readRequest sc reg ctx).notSend = false ∧ (readRequest sc reg ctx).ctx.req = req ∧
          (readRequest sc reg ctx).err ≠ some "" ∧
          ((readRequest sc reg ctx).err = none → (readRequest sc reg ctx).ctx.replyv.isSome ∧
            (readRequest sc reg ctx).ctx.service.isSome))) := by
  obtain ⟨hq, hresp, -, hcase⟩ := readRequestHeader_cases reg hne ctx
  simp only [readRequest]
  generalize readRequestHeader sc reg ctx = h at *
  have hb := readRequestBody_spec hne
  rcases hcase with ⟨hno, hk, he⟩ | ⟨req, hr, hk, hn, hreq, he, hsv⟩
  · obtain ⟨e, he⟩ := Option.isSome_iff_exists.mp he
    simp [he, hk, hq, hresp, hno]
  · cases herr : h.err with
    | some e =>
      simp only [hk]
      refine ⟨⟨h.acts ++ (readRequestBody sc h.ctx false).2.1, by simp, by simp [hq, (hb _ _).1]⟩,
        by simp [(hb _ _).2.2.1, hresp], .inr ⟨req, hr, rfl, hn, by simp [(hb _ _).2.1, hreq], ?_, by simp⟩⟩
      simpa [herr] using he
    | none =>
      have hs := hsv herr
      obtain ⟨hq', hreq', hresp', -, hsvc', he'⟩ := hb { h.ctx with argv := some 0 } true
      clear hb
      simp only [herr]
      generalize readRequestBody sc { h.ctx with argv := some 0 } true = b at hq' hreq' hresp' hsvc' he' ⊢
      obtain ⟨bctx, bacts, _ | e⟩ := b <;> simp_all <;> exact ⟨h.acts ++ bacts, by simp, by simp [hq, hq']⟩

/-! ## Writing -/

/-- The `PreWriteResponse` hooks write nothing, and report a failing error exactly when
they return one. -/
theorem runHooks_preWrite (sc : Script) (ctx : Context) :
    (runHooks sc ctx .preWriteResponse .preWriteResponseService).2.1.filter Act.isWrite = [] ∧
      (runHooks sc ctx .preWriteResponse .preWriteResponseService).2.1.any Act.fails =
        (runHooks sc ctx .preWriteResponse .preWriteResponseService).2.2.isSome := by
  rcases (runHooks_cases sc ctx .preWriteResponse .preWriteResponseService).2 with ⟨-, h⟩ | ⟨-, -, _, h⟩ <;>
    rw [h]
  · cases sc.hook .preWriteResponse <;> exact ⟨rfl, rfl⟩
  · cases sc.hook .preWriteResponseService <;> exact ⟨rfl, rfl⟩

/-- When both `PreWriteResponse` hooks pass, the reply object holds what they leave. -/
theorem replyAfter_preWrite (sc : Script) {ctx : Context} (hs : ctx.service.isSome)
    (hn : (runHooks sc ctx .preWriteResponse .preWriteResponseService).2.2 = none) :
    replyAfter sc (runHooks sc ctx .preWriteResponse .preWriteResponseService).2.1 = sc.writtenReply := by
  rcases (runHooks_cases sc ctx .preWriteResponse .preWriteResponseService).2 with ⟨hx, h⟩ | ⟨-, -, _, h⟩ <;>
    rw [h] at hn ⊢ <;> dsimp only at hn
  · rcases hx with hx | hx <;> simp_all
  · rfl

/-- `writeResponse` makes one write, of `resp`'s `Seq` and `ServiceMethod`. Its `Error`
is non-empty exactly when `resp.Error` was or a `PreWriteResponse` hook failed (all
messages being non-empty), and the body stays a reply exactly when it was one and no
hook failed: the reply the hooks leave. -/
theorem writeResponse_spec {sc : Script} (hne : sc.NonEmptyErrors) (ctx : Context) (body : Body) :
    ∃ resp body', (writeResponse sc ctx body).2.filter Act.isWrite = [.writeResponse resp body'] ∧
      resp.seq = ctx.resp.seq ∧ resp.serviceMethod = ctx.resp.serviceMethod ∧
      (resp.error ≠ "" ↔ ctx.resp.error ≠ "" ∨ (writeResponse sc ctx body).2.any Act.fails) ∧
      (body'.isReply ↔ body.isReply ∧ (writeResponse sc ctx body).2.any Act.fails = false) ∧
      (ctx.service.isSome → (writeResponse sc ctx body).2.any Act.fails = false →
        body' = body.map sc.writtenReply) := by
  obtain ⟨⟨v, hv⟩, hcase⟩ := runHooks_cases sc ctx .preWriteResponse .preWriteResponseService
  obtain ⟨hw, hf⟩ := runHooks_preWrite sc ctx
  have hrep := @replyAfter_preWrite sc ctx
  have hne' : (runHooks sc ctx .preWriteResponse .preWriteResponseService).2.2 ≠ some "" := by
    rcases hcase with ⟨-, h⟩ | ⟨-, -, _, h⟩ <;> rw [h] <;> exact hne.hook _
  simp only [writeResponse]
  generalize runHooks sc ctx .preWriteResponse .preWriteResponseService = r at hv hw hf hne' hrep ⊢
  obtain ⟨pctx, pre, err⟩ := r
  dsimp only at hv hw hf hne' hrep ⊢
  subst hv
  simp only [List.filter_append, hw, List.any_append, hf, List.nil_append, Context.setView_resp]
  cases err with
  | none =>
    have hc : ctx.resp.error.length > 0 ↔ ctx.resp.error ≠ "" := String.length_pos_iff _
    refine ⟨_, _, rfl, by split <;> rfl, by split <;> rfl, ?_, ?_, fun hs _ => by rw [hrep hs rfl]⟩
    · split
      · rename_i h
        simp [Act.fails, hc.mp h]
      · simp [Act.fails]
    · cases body <;> simp [Act.fails, Body.map, Body.isReply]
  | some e =>
    have he : e ≠ "" := fun h => hne' (h ▸ rfl)
    have hl : e.length > 0 := (String.length_pos_iff e).mpr he
    refine ⟨_, .nil, rfl, by dsimp only; rw [if_pos hl], by dsimp only; rw [if_pos hl], ?_,
      by simp [Body.isReply], fun _ h => by simp [Act.fails] at h⟩
    dsimp only
    rw [if_pos hl]
    simp [he]

/-- `sendResponse` with an error message, or with a reply value, never panics; its one
write carries the request's `Seq` and `ServiceMethod`, and without an error message
the reply it writes is the handler's value as the `PreWriteResponse` hooks leave it. -/
theorem sendResponse_spec {sc : Script} (hne : sc.NonEmptyErrors) (ctx : Context) (errmsg : String)
    (hv : errmsg ≠ "" ∨ ctx.replyv.isSome) :
    ∃ s, sendResponse sc ctx errmsg = .ok s ∧
      ∃ resp body', s.2.filter Act.isWrite = [.writeResponse resp body'] ∧
        resp.seq = ctx.req.seq ∧ resp.serviceMethod = ctx.req.serviceMethod ∧
        (resp.error ≠ "" ↔ errmsg ≠ "" ∨ ctx.resp.error ≠ "" ∨ s.2.any Act.fails) ∧
        (body'.isReply ↔ errmsg = "" ∧ s.2.any Act.fails = false) ∧
        (∀ v, ctx.replyv = some v → errmsg = "" → ctx.service.isSome → s.2.any Act.fails = false →
          body' = .reply (sc.writtenReply v)) := by
  by_cases he : errmsg = ""
  · obtain ⟨v, hv⟩ := Option.isSome_iff_exists.mp (hv.resolve_left (not_not.mpr he))
    obtain ⟨resp, body', hw, hseq, hm, herr, hb, hr⟩ := writeResponse_spec hne
      { ctx with resp := { ctx.resp with serviceMethod := ctx.req.serviceMethod, seq := ctx.req.seq } } (.reply v)
    refine ⟨_, by simp [sendResponse, he, hv]; rfl, resp, body', hw, hseq, hm, ?_, ?_,
      fun v' hv' _ hs hf => ?_⟩
    · simpa [he] using herr
    · simpa [he, Body.isReply] using hb
    · obtain rfl : v = v' := Option.some.inj (hv.symm.trans hv')
      exact hr hs hf
  · obtain ⟨resp, body', hw, hseq, hm, herr, hb, -⟩ := writeResponse_spec hne
      { ctx with resp := ⟨ctx.req.serviceMethod, ctx.req.seq, errmsg⟩ } .invalidRequest
    refine ⟨_, by simp [sendResponse, he]; rfl, resp, body', hw, hseq, hm, ?_, ?_,
      fun _ _ h => absurd h he⟩
    · simpa [he] using herr
    · simpa [he, Body.isReply] using hb

/-- With a service found and a reply value allocated, `call` never panics; its one write
carries the request's `Seq` and `ServiceMethod`, with a non-empty `Error` exactly when
`resp.Error` was non-empty or the handler or a hook failed, and otherwise the reply: the
handler's value as the `PreWriteResponse` hooks leave it. -/
theorem call_spec {sc : Script} (hne : sc.NonEmptyErrors) (ctx : Context) (hv : ctx.replyv.isSome)
    (hs : ctx.service.isSome) :
    ∃ s, call sc ctx = .ok s ∧
      ∃ resp body', s.2.filter Act.isWrite = [.writeResponse resp body'] ∧
        resp.seq = ctx.req.seq ∧ resp.serviceMethod = ctx.req.serviceMethod ∧
        (resp.error ≠ "" ↔ ctx.resp.error ≠ "" ∨ s.2.any Act.fails) ∧
        (body'.isReply ↔ s.2.any Act.fails = false) ∧
        (s.2.any Act.fails = false → body' = .reply (sc.writtenReply sc.call.1)) := by
  generalize hctx : ({ ctx with replyv := ctx.replyv.map fun _ => sc.call.1 } : Context).setView
    (sc.callView ctx.view) = ctx'
  have hv' : ctx'.replyv = some sc.call.1 := by
    obtain ⟨v, h⟩ := Option.isSome_iff_exists.mp hv
    simp [← hctx, h]
  have hreq : ctx'.req = ctx.req := by simp [← hctx]
  have hresp : ctx'.resp = ctx.resp := by simp [← hctx]
  cases hc : sc.call.2 with
  | none =>
    obtain ⟨s, hs', resp, body', hw, hseq, hm, herr, hb, hr⟩ := sendResponse_spec hne ctx' "" (.inr (by simp [hv']))
    refine ⟨(s.1, .call ctx.view none :: s.2), by simp [call, hc, hctx, hs', Except.map], resp, body',
      by simp [Act.isWrite, hw], hreq ▸ hseq, hreq ▸ hm, by simpa [Act.fails, hresp] using herr,
      by simpa [Act.fails] using hb, fun hf => hr _ hv' rfl (by simpa [← hctx] using hs) (by simpa [Act.fails] using hf)⟩
  | some e =>
    have he : e ≠ "" := fun h => hne.call (by rw [hc, h])
    obtain ⟨s, hs', resp, body', hw, hseq, hm, herr, hb, -⟩ := sendResponse_spec hne ctx' e (.inl he)
    refine ⟨(s.1, .call ctx.view (some e) :: s.2), by simp [call, hc, hctx, hs', Except.map], resp, body',
      by simp [Act.isWrite, hw], hreq ▸ hseq, hreq ▸ hm, by simpa [Act.fails, he, hresp] using herr,
      by simpa [Act.fails, he] using hb, fun hf => by simp [Act.fails] at hf⟩

/-! ## One request -/

theorem Script.ReadsHeader.unique {sc : Script} {req req' : Request} (h : sc.ReadsHeader req)
    (h' : sc.ReadsHeader req') : req' = req :=
  HeaderRead.ok.inj (h'.2.symm.trans h.2)

/-- A request served on its own from any context `getContext` hands out, when every
error has a non-empty message: it does not panic; if its header was read it is answered
as `Answers` asks, and otherwise nothing is written. -/
theorem serveAlone_answers (reg : Registry) {sc : Script} (hne : sc.NonEmptyErrors)
    (ctx : Context) (c : Nat) :
    ∃ acts, serveAlone reg sc (ctx.reset c) = .ok acts ∧
      (∀ req, sc.ReadsHeader req → Answers sc req acts) ∧
      ((∀ req, ¬ sc.ReadsHeader req) → acts.filter Act.isWrite = []) := by
  obtain ⟨⟨xs, hacts, hq⟩, hresp, hcase⟩ := readRequest_cases reg hne (ctx.reset c)
  simp only [serveAlone]
  generalize readRequest sc reg (ctx.reset c) = r at *
  rcases hcase with ⟨hno, hk, he⟩ | ⟨req, hr, hk, hn, hreq, he, hrv⟩
  · obtain ⟨e, he⟩ := Option.isSome_iff_exists.mp he
    refine ⟨r.acts, by simp [he, hk], fun req h => absurd h (hno req), fun _ => ?_⟩
    simp [hacts, hq.filter_isWrite, Act.isWrite]
  · cases herr : r.err with
    | none =>
      obtain ⟨hv, hs⟩ := hrv herr
      obtain ⟨s, hs, resp, body', hw, hseq, hm, herr', hb, hr'⟩ := call_spec hne r.ctx hv hs
      refine ⟨r.acts ++ s.2, by simp [hs, Except.map], fun req' h' => ?_, fun h => absurd hr (h req)⟩
      obtain rfl := h'.unique hr
      have hf : (r.acts ++ s.2).any Act.fails = s.2.any Act.fails := by
        simp [hacts, hq.any_fails, herr, Act.fails]
      refine ⟨resp, body', by simp [hacts, hq.filter_isWrite, hw, herr, Act.isWrite],
        by rw [hseq, hreq], by rw [hm, hreq], ?_, by rw [hf]; exact hb, fun h => hr' (hf ▸ h)⟩
      simpa [hf, hresp, Context.reset] using herr'
    | some e =>
      have he' : e ≠ "" := fun h => he (by rw [herr, h])
      obtain ⟨s, hs, resp, body', hw, hseq, hm, herr', hb, -⟩ := sendResponse_spec hne r.ctx e (.inl he')
      have hf : (r.acts ++ s.2).any Act.fails = true := by simp [hacts, herr, Act.fails]
      refine ⟨r.acts ++ s.2, by simp [hk, hn, hs, Except.map], fun req' h' => ?_,
        fun h => absurd hr (h req)⟩
      obtain rfl := h'.unique hr
      refine ⟨resp, body', by simp [hacts, hq.filter_isWrite, hw, herr, Act.isWrite],
        by rw [hseq, hreq], by rw [hm, hreq], by simpa [hf] using herr'.mpr (.inl he'),
        by simpa [hf, he'] using hb, fun h => absurd (hf ▸ h) (by simp)⟩

end Myrpc.Server
