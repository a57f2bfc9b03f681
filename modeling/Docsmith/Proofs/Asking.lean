import Docsmith.Generate.Tasks
import Docsmith.Proofs.Shelf

/-! # Asking the model

A question sends the conversation, once for each time the model is asked, and may keep it in a file.
All that is sent starts with the same message, and the answer is one that the model was to give
(`askFrom_run`). -/

namespace Docsmith

/-! ## Steps on a part of the world -/

variable {α : Type}

lemma run_inFolder (step : Files α) (w : World) :
    (inFolder step).run.run w
      = ((step.run.run w.folder).1, { w with folder := (step.run.run w.folder).2 }) := rfl

lemma run_inWorld (step : Run α) (s : Session) :
    (inWorld step).run.run s
      = ((step.run.run s.world).1, { s with world := (step.run.run s.world).2 }) := rfl

lemma Run.run_talk (step : Talk α) (w : World) :
    (Run.talk step).run.run w
      = ((step.run.run { world := w }).1, (step.run.run { world := w }).2.world) := rfl

lemma Run.run_ofExcept (x : Except Fault α) (w : World) :
    (Run.ofExcept x).run.run w = (x, w) := by
  cases x with
  | error e | ok a => rfl

variable {m : Message} {reply : Reply}

namespace Talk

/-! ## Answers -/

def said : List Chunk → Option String
  | [] => some ""
  | .content none :: _ => none
  | .content (some text) :: cs => (said cs).map (text ++ ·)
  | _ :: cs => said cs

def answer? : Reply → Option String
  | .timeout => none
  | .failure _ => none
  | reply => said (chunksOf reply)

lemma answer?_eq (hlate : reply ≠ .timeout) (hfailed : ∀ reason, reply ≠ .failure reason) :
    answer? reply = said (chunksOf reply) := by
  cases reply with
  | text content | stream chunks | calls calls => rfl
  | timeout => exact absurd rfl hlate
  | failure reason => exact absurd rfl (hfailed reason)

lemma assemble_cons (verbose thinking : Bool) {c : Chunk} (hc : c ≠ .content none)
    (cs : List Chunk) :
    assemble verbose thinking (c :: cs) = (do
      if verbose then Run.print (shown thinking c).1
      let rest ← assemble verbose (shown thinking c).2 cs
      match c with
      | .content (some text) => return text ++ rest
      | _ => return rest) :=
  assemble.eq_3 verbose thinking c cs hc

lemma assemble_run (verbose thinking : Bool) (cs : List Chunk) (w : World) :
    ∃ printed, (verbose = false → printed = w.printed) ∧ (assemble verbose thinking cs).run.run w
      = ((said cs).elim (.error .noText) .ok, { w with printed }) := by
  induction cs generalizing thinking w with
  | nil => exact ⟨w.printed, fun _ => rfl, rfl⟩
  | cons c cs ih =>
    by_cases hc : c = .content none
    · subst hc
      exact ⟨w.printed, fun _ => rfl, rfl⟩
    · rw [assemble_cons verbose thinking hc]
      have hshow : ∃ printed, (verbose = false → printed = w.printed) ∧ ∀ k : Run String, (do
          if verbose then Run.print (shown thinking c).1
          k).run.run w = k.run.run { w with printed } := by
        cases verbose with
        | true => exact ⟨_, Bool.noConfusion, fun k => rfl⟩
        | false => exact ⟨w.printed, fun _ => rfl, fun k => rfl⟩
      obtain ⟨printed, hquiet, hshow⟩ := hshow
      obtain ⟨printed', hquiet', hrest⟩ := ih (shown thinking c).2 { w with printed }
      refine ⟨printed', fun hv => (hquiet' hv).trans (hquiet hv), ?_⟩
      rw [hshow, run_bind, hrest]
      cases c with
      | content text =>
        cases text with
        | none => exact absurd rfl hc
        | some text =>
          rw [said]
          cases said cs with
          | none | some rest => rfl
      | reasoning text | usage | nothing =>
        show _ = ((said cs).elim _ _, _)
        cases said cs with
        | none => rfl
        | some rest => rfl

/-! ## Questions -/

def Noted (f f' : Folder) : Prop :=
  f' = f ∨ ∃ text, f' = ((Files.append Store.notes text).run.run f).2

lemma Noted.keeps {docs : String} {f f' : Folder} {texts : String → Option String}
    (hnoted : Noted f f') (h : Store.Keeps docs f texts) : Store.Keeps docs f' texts := by
  rcases hnoted with rfl | ⟨text, rfl⟩
  · exact h
  · exact h.of_note text

/-- Conversations are sent that start with the same message, and one may be kept. -/
structure Asked (m : Message) (w w' : World) : Prop where
  sent : ∃ new, w'.prompts = w.prompts ++ new ∧ ∀ q ∈ new, q.messages.head? = some m
  noted : Noted w.folder w'.folder
  verbose : w'.verbose = w.verbose

lemma Asked.trans {w w₁ w₂ : World} (h : Asked m w w₁) (hsame : w₁.folder = w.folder)
    (h' : Asked m w₁ w₂) : Asked m w w₂ := by
  obtain ⟨new, hnew, hstart⟩ := h.sent
  obtain ⟨new', hnew', hstart'⟩ := h'.sent
  refine ⟨⟨new ++ new', by rw [hnew', hnew, List.append_assoc], ?_⟩, hsame ▸ h'.noted,
    h'.verbose.trans h.verbose⟩
  intro q hq
  exact (List.mem_append.mp hq).elim (hstart q) (hstart' q)

lemma keep_quiet {s : Session} (hquiet : s.world.verbose = false) :
    keep.run.run s = (.ok (), s) := by
  rw [keep, run_bind]
  show ((if s.world.verbose then _ else _ : Talk Unit).run.run s) = _
  rw [hquiet]
  rfl

lemma keep_run (s : Session) : ∃ r f, keep.run.run s = (r, { s with world.folder := f }) ∧
    Noted s.world.folder f ∧ (s.world.verbose = false → r = .ok ()) := by
  cases hverbose : s.world.verbose with
  | false => exact ⟨.ok (), s.world.folder, keep_quiet hverbose, Or.inl rfl, fun _ => rfl⟩
  | true =>
    rw [keep, run_bind]
    show ∃ r f, ((if s.world.verbose then _ else _ : Talk Unit).run.run s) = _ ∧ _
    rw [hverbose]
    exact ⟨_, _, rfl, Or.inr ⟨_, rfl⟩, Bool.noConfusion⟩

def sent (rest : List Reply) (s : Session) : Session :=
  { history := s.history ++ [.said .user (some (languageReminder s.world.language))]
    world := { s.world with
      prompts := s.world.prompts
        ++ [{ messages := s.history
                ++ [.said .user (some (languageReminder s.world.language))], tools := none }]
      replies := rest } }

lemma asked_sent {s : Session} (hm : s.history.head? = some m) (rest : List Reply) :
    Asked m s.world (sent rest s).world := by
  refine ⟨⟨_, rfl, ?_⟩, Or.inl rfl, rfl⟩
  simp [hm]

variable (post : String → String)

lemma askFrom_nil (s : Session) :
    (askFrom post []).run.run s = (.error .noReply, sent [] s) := rfl

lemma run_get (s : Session) : (get : Talk Session).run.run s = (.ok s, s) := rfl

lemma run_add (m : Message) (s : Session) :
    (add m).run.run s = (.ok (), { s with history := s.history ++ [m] }) := rfl

lemma run_pure (a : α) (s : Session) :
    (pure a : Talk α).run.run s = (.ok a, s) := rfl

/-- What is done with a reply that is neither a failure nor late. -/
def answered (post : String → String) (reply : Reply) : Talk String := do
  let text ← inWorld (assemble (← get).world.verbose false (chunksOf reply))
  keep
  add (.said .assistant (some (post text)))
  return post text

lemma askFrom_cons (reply : Reply) (rest : List Reply) (s : Session) :
    (askFrom post (reply :: rest)).run.run s = (match reply with
      | .timeout => askFrom post rest
      | .failure reason => throw (.reported reason)
      | reply => answered post reply : Talk String).run.run (sent rest s) := rfl

lemma askFrom_reply (hlate : reply ≠ .timeout) (hfailed : ∀ reason, reply ≠ .failure reason)
    (rest : List Reply) (s : Session) :
    (askFrom post (reply :: rest)).run.run s = (answered post reply).run.run (sent rest s) := by
  rw [askFrom_cons]
  cases reply with
  | text content | stream chunks | calls calls => rfl
  | timeout => exact absurd rfl hlate
  | failure reason => exact absurd rfl (hfailed reason)

lemma answered_run (reply : Reply) {s t : Session} (hs : Asked m t.world s.world)
    (hsame : s.world.folder = t.world.folder) :
    ∃ r s', (answered post reply).run.run s = (r, s') ∧ Asked m t.world s'.world ∧
      s'.world.replies = s.world.replies ∧
      (∀ a, r = .ok a → ∃ text, said (chunksOf reply) = some text ∧ a = post text) ∧
      (∀ text, said (chunksOf reply) = some text → t.world.verbose = false →
        r = .ok (post text)) := by
  obtain ⟨printed, -, hassemble⟩ := assemble_run s.world.verbose false (chunksOf reply) s.world
  simp only [answered, run_bind, run_get, run_inWorld, hassemble]
  cases htext : said (chunksOf reply) with
  | none => exact ⟨_, _, rfl, ⟨hs.sent, hs.noted, hs.verbose⟩, rfl, by simp, by simp⟩
  | some text =>
    obtain ⟨r, f, hkeep, hnoted, hok⟩ := keep_run { s with world.printed := printed }
    have hasked : Asked m t.world { s.world with printed := printed, folder := f } := by
      refine ⟨hs.sent, ?_, hs.verbose⟩
      rw [← hsame]
      exact hnoted
    simp only [Option.elim_some, hkeep, run_add, run_pure]
    cases r with
    | error e =>
      refine ⟨_, _, rfl, hasked, rfl, by simp, fun _ _ hquiet => ?_⟩
      exact nomatch hok (hs.verbose.trans hquiet)
    | ok u =>
      refine ⟨_, _, rfl, hasked, rfl, ?_, ?_⟩
      · rintro a ha
        exact ⟨text, rfl, (Except.ok.inj ha).symm⟩
      · rintro text' htext' -
        rw [Option.some.inj htext']

lemma askFrom_run (replies : List Reply) {s : Session} (hm : s.history.head? = some m) :
    ∃ r s' used, (askFrom post replies).run.run s = (r, s') ∧ Asked m s.world s'.world ∧
      replies = used ++ s'.world.replies ∧
      (∀ a, r = .ok a → ∃ reply ∈ used, ∃ text, answer? reply = some text ∧ a = post text) ∧
      (∀ text ∈ replies.head?.bind answer?, s.world.verbose = false → r = .ok (post text)) := by
  induction replies generalizing s with
  | nil => exact ⟨_, _, [], askFrom_nil post s, asked_sent hm [], rfl, by simp, by simp⟩
  | cons reply rest ih =>
    have hsent := asked_sent hm rest
    by_cases hlate : reply = .timeout
    · subst hlate
      have hlonger : (sent rest s).history.head? = some m := by simp [sent, hm]
      obtain ⟨r, s', used, hrun, hasked, hused, hanswer, -⟩ := ih hlonger
      refine ⟨r, s', .timeout :: used, (askFrom_cons post .timeout rest s).trans hrun,
        hsent.trans rfl hasked, by rw [List.cons_append, ← hused], ?_, by simp [answer?]⟩
      intro a ha
      obtain ⟨reply, hmem, htext⟩ := hanswer a ha
      exact ⟨reply, List.mem_cons_of_mem _ hmem, htext⟩
    · by_cases hfailed : ∃ reason, reply = .failure reason
      · obtain ⟨reason, rfl⟩ := hfailed
        exact ⟨_, _, [.failure reason], askFrom_cons post (.failure reason) rest s, hsent, rfl, by simp,
          by simp [answer?]⟩
      · obtain ⟨r, s', hrun, hasked, hleft, hanswer, hok⟩ := answered_run post reply hsent rfl
        have hreply := not_exists.mp hfailed
        rw [← answer?_eq hlate hreply] at hanswer hok
        refine ⟨r, s', [reply], (askFrom_reply post hlate hreply rest s).trans hrun, hasked, ?_,
          ?_, hok⟩
        · rw [hleft]
          rfl
        · intro a ha
          exact ⟨reply, List.mem_cons_self, hanswer a ha⟩

lemma askFrom_answer {text : String} (hanswer : answer? reply = some text) (rest : List Reply)
    {s : Session} (hquiet : s.world.verbose = false) :
    (askFrom post (reply :: rest)).run.run s
      = (.ok (post text), { sent rest s with
          history := (sent rest s).history ++ [.said .assistant (some (post text))] }) := by
  have hlate : reply ≠ .timeout := by
    rintro rfl
    cases hanswer
  have hfailed : ∀ reason, reply ≠ .failure reason := by
    rintro reason rfl
    cases hanswer
  rw [answer?_eq hlate hfailed] at hanswer
  obtain ⟨printed, hprinted, hassemble⟩ :=
    assemble_run (sent rest s).world.verbose false (chunksOf reply) (sent rest s).world
  obtain rfl := hprinted hquiet
  rw [askFrom_reply post hlate hfailed]
  simp only [answered, run_bind, run_get, run_inWorld, hassemble, hanswer, Option.elim_some]
  rw [keep_quiet (s := sent rest s) hquiet]
  rfl

end Talk

def Generate.question (prompt language : String) : Prompt where
  messages := [.said .system (some prompt), .said .user (some Prompt.guideline),
    .said .user (some (Talk.languageReminder language))]

variable (prompt : String)

lemma Generate.askDocument_answer (post : String → String) {w : World} {rest : List Reply}
    (hreplies : w.replies = reply :: rest) {text : String}
    (hanswer : Talk.answer? reply = some text) (hquiet : w.verbose = false) :
    (askDocument prompt post).run.run w = (.ok (post text), { w with
      prompts := w.prompts ++ [question prompt w.language], replies := rest }) := by
  have hask := Talk.askFrom_answer post hanswer rest
    (s := { history := [.said .system (some prompt), .said .user (some Prompt.guideline)],
            world := w }) hquiet
  rw [← hreplies] at hask
  have hrun : ((do
      Talk.system prompt
      Talk.user Prompt.guideline
      Talk.ask post) : Talk String).run.run { world := w } = _ := hask
  rw [askDocument, Run.run_talk, hrun]
  rfl

lemma Run.talk_run {step : Talk String} (history : List Message) {w : World}
    (hm : history.head? = some m) (hstep : step.run.run { world := w }
      = (Talk.askFrom id w.replies).run.run { history, world := w }) :
    ∃ r w' used, (Run.talk step).run.run w = (r, w') ∧ Talk.Asked m w w' ∧
      w.replies = used ++ w'.replies ∧
      (∀ a, r = .ok a → ∃ reply ∈ used, Talk.answer? reply = some a) ∧
      (∀ text ∈ w.replies.head?.bind Talk.answer?, w.verbose = false → r = .ok text) := by
  obtain ⟨r, s, used, hrun, hasked, hused, hanswer, hok⟩ := Talk.askFrom_run id w.replies
    (s := { history, world := w }) hm
  refine ⟨r, s.world, used, by rw [Run.run_talk, hstep, hrun], hasked, hused, ?_, hok⟩
  intro a ha
  obtain ⟨reply, hmem, text, htext, rfl⟩ := hanswer a ha
  exact ⟨reply, hmem, htext⟩

lemma Generate.askDocument_run (w : World) :
    ∃ r w' used, (askDocument prompt id).run.run w = (r, w') ∧
      Talk.Asked (.said .system (some prompt)) w w' ∧ w.replies = used ++ w'.replies ∧
      (∀ a, r = .ok a → ∃ reply ∈ used, Talk.answer? reply = some a) ∧
      (∀ text ∈ w.replies.head?.bind Talk.answer?, w.verbose = false → r = .ok text) :=
  Run.talk_run [.said .system (some prompt), .said .user (some Prompt.guideline)] rfl rfl

lemma Generate.askUser_run (w : World) :
    ∃ r w' used, (askUser prompt id).run.run w = (r, w') ∧
      Talk.Asked (.said .user (some prompt)) w w' ∧ w.replies = used ++ w'.replies ∧
      (∀ a, r = .ok a → ∃ reply ∈ used, Talk.answer? reply = some a) ∧
      (∀ text ∈ w.replies.head?.bind Talk.answer?, w.verbose = false → r = .ok text) :=
  Run.talk_run [.said .user (some prompt)] rfl rfl

end Docsmith
