import Docsmith.Proofs.Asking
import Docsmith.Proofs.Quoting
import Docsmith.Session.Tools

/-! # Conversations

* An answer in pieces is the text of its pieces, up to one with neither text nor reasoning
  (`assemble_contents_iff`).
* Every reply that does not come in time leaves one more reminder in the conversation (`ask_late`).
* A message that asks for several tool calls is repeated before each of them
  (`askTools_proper_iff`). -/

namespace Docsmith.Talk

open List

/-! ## Answers in pieces -/

def content? : Chunk → Option String
  | .content text => text
  | _ => none

def contents (cs : List Chunk) : String :=
  Text.join "" (cs.filterMap content?)

lemma contents_cons (c : Chunk) (cs : List Chunk) :
    contents (c :: cs) = (content? c).getD "" ++ contents cs := by
  rw [← String.toList_inj, String.toList_append, contents, contents, Text.toList_join_empty,
    Text.toList_join_empty, filterMap_cons]
  cases content? c with
  | none | some text => rfl

lemma said_eq (cs : List Chunk) :
    said cs = if .content none ∈ cs then none else some (contents cs) := by
  induction cs with
  | nil => rfl
  | cons c cs ih =>
    have hskip : c ≠ .content none → content? c = none → said (c :: cs) = said cs →
        said (c :: cs) = if .content none ∈ c :: cs then none else some (contents (c :: cs)) := by
      intro hc hnone hsaid
      rw [hsaid, ih, contents_cons, hnone, Option.getD_none, String.empty_append]
      simp only [mem_cons, hc.symm, false_or]
    cases c with
    | content text =>
      cases text with
      | none => simp [said]
      | some text =>
        rw [said, ih, contents_cons]
        simp only [mem_cons, Chunk.content.injEq, reduceCtorEq, false_or]
        split <;> rfl
    | reasoning text | usage | nothing => exact hskip (by rintro ⟨⟩) rfl rfl

lemma assemble_quiet (cs : List Chunk) (w : World) :
    (assemble false false cs).run.run w = ((said cs).elim (.error .noText) .ok, w) := by
  obtain ⟨printed, hquiet, hrun⟩ := assemble_run false false cs w
  rw [hrun, hquiet rfl]

/-- An answer in pieces is their text, and that of the same text in one piece, exactly if no piece
lacks both text and reasoning; else it fails. -/
theorem assemble_contents_iff (cs : List Chunk) (w : World) :
    ((assemble false false cs).run.run w = (.ok (contents cs), w) ↔ .content none ∉ cs) ∧
    ((assemble false false cs).run.run w
      = (assemble false false [.content (some (contents cs))]).run.run w ↔ .content none ∉ cs) ∧
    (.content none ∈ cs → (assemble false false cs).run.run w = (.error .noText, w)) := by
  have hone : (assemble false false [.content (some (contents cs))]).run.run w
      = (.ok (contents cs), w) := by
    rw [assemble_quiet, said, said, Option.map_some, String.append_empty]
    rfl
  rw [hone, assemble_quiet, said_eq]
  split
  · rename_i h
    have hne : ((.error .noText, w) : Except Fault String × World) ≠ (.ok (contents cs), w) := by
      rintro ⟨⟩
    exact ⟨iff_of_false hne (not_not.mpr h), iff_of_false hne (not_not.mpr h), fun _ => rfl⟩
  · rename_i h
    exact ⟨iff_of_true rfl h, iff_of_true rfl h, fun hmem => absurd hmem h⟩

/-- A piece without text between two that have one. -/
theorem assemble_gap :
    ((assemble false false [.content (some "a"), .content none, .content (some "b")]).run.run
      {}).1 = .error .noText := rfl

/-! ## Late answers -/

def reminder (s : Session) : Message :=
  .said .user (some (languageReminder s.world.language))

def Keepable (s : Session) : Prop :=
  s.world.verbose = true → (∃ place, s.world.folder.writable Store.notes = .ok place) ∧
    ∀ m ∈ s.history, Folder.checkText (messageText m) = .ok ()

lemma appendText_of_writable {f : Folder} {path : String} {place : List String}
    (h : f.writable path = .ok place) (text : String) :
    ∃ c, f.appendText path text = .ok (f.set (.file c) place) := by
  rw [Folder.appendText, h]
  simp only [bind, Except.bind]
  split
  · exact ⟨_, rfl⟩
  · exact ⟨_, rfl⟩

lemma append_ok_iff {f : Folder} {path text : String} :
    ((Files.append path text).run.run f).1 = .ok () ↔
      (∃ place, f.writable path = .ok place) ∧ Folder.checkText text = .ok () := by
  cases hw : f.writable path with
  | error e => simp [Files.append_error hw]
  | ok place =>
    obtain ⟨c, hfirst⟩ := appendText_of_writable hw ""
    obtain ⟨c', hsecond⟩ := appendText_of_writable (Folder.writable_set hw c) text
    rw [Files.append, run_bind, Files.run_update, hfirst]
    simp only [run_bind, Files.run_ask]
    cases Folder.checkText text with
    | error e => simp
    | ok u =>
      simp only [Files.run_update, hsecond]
      simp

lemma checkText_join {sep : String} (hsep : Folder.checkText sep = .ok ()) (ts : List String) :
    Folder.checkText (Text.join sep ts) = .ok () ↔ ∀ t ∈ ts, Folder.checkText t = .ok () := by
  induction ts with
  | nil => simp [Folder.checkText_ok_iff]
  | cons t ts ih =>
    cases ts with
    | nil => simp
    | cons u us =>
      rw [Text.join_cons_cons, forall_mem_cons, ← ih]
      simp only [Folder.checkText_ok_iff, String.toList_append, forall_mem_append] at hsep ⊢
      rw [and_iff_left hsep]

lemma keep_ok_iff (s : Session) : (keep.run.run s).1 = .ok () ↔ Keepable s := by
  rw [Keepable]
  cases hverbose : s.world.verbose with
  | false => simp [keep_quiet hverbose]
  | true =>
    have hrun : (keep.run.run s).1 = ((Files.append Store.notes (Text.join "\n"
        (s.history.map messageText) ++ "\n\n---\n\n")).run.run s.world.folder).1 := by
      rw [keep]
      show ((if s.world.verbose then _ else _ : Talk Unit).run.run s).1 = _
      rw [hverbose]
      rfl
    have hrule := Folder.checkText_ok_iff.mp (show Folder.checkText "\n\n---\n\n" = .ok () from rfl)
    rw [hrun, append_ok_iff, Folder.checkText_ok_iff, String.toList_append, forall_mem_append,
      and_iff_left hrule, ← Folder.checkText_ok_iff, checkText_join rfl]
    simp

variable (post : String → String) (reply : Reply)

lemma answered_ok_iff (s : Session) : ∃ r s', (answered post reply).run.run s = (r, s') ∧
    (∀ a, r = .ok a ↔ (∃ text, said (chunksOf reply) = some text ∧ post text = a) ∧ Keepable s) ∧
    (∀ a, r = .ok a → s'.history = s.history ++ [.said .assistant (some a)]) ∧
    s'.world.prompts = s.world.prompts := by
  obtain ⟨printed, -, hassemble⟩ := assemble_run s.world.verbose false (chunksOf reply) s.world
  have hkeep := keep_ok_iff { s with world.printed := printed }
  obtain ⟨r, f, hrun, -, -⟩ := keep_run { s with world.printed := printed }
  rw [hrun] at hkeep
  replace hkeep : r = .ok () ↔ Keepable s := hkeep
  simp only [answered, run_bind, run_get, run_inWorld, hassemble]
  cases said (chunksOf reply) with
  | none => exact ⟨_, _, rfl, by simp, by simp, rfl⟩
  | some text =>
    simp only [Option.elim_some, hrun]
    cases r with
    | error e =>
      refine ⟨_, _, rfl, fun a => iff_of_false (by rintro ⟨⟩) fun h => ?_, by simp, rfl⟩
      cases hkeep.mpr h.2
    | ok u =>
      refine ⟨_, _, rfl, fun a => ?_, fun a ha => ?_, rfl⟩
      · simp [hkeep.mp rfl]
      · rw [Except.ok.inj ha]

lemma askFrom_late (n : Nat) (replies : List Reply) (s : Session) : ∃ new left,
    (askFrom post (List.replicate n .timeout ++ replies)).run.run s
      = (askFrom post replies).run.run {
          history := s.history ++ List.replicate n (reminder s)
          world := { s.world with prompts := s.world.prompts ++ new, replies := left } } := by
  induction n generalizing s with
  | zero => exact ⟨[], s.world.replies, by simp⟩
  | succ n ih =>
    obtain ⟨new, left, hrun⟩ := ih (sent (List.replicate n .timeout ++ replies) s)
    refine ⟨{ messages := s.history ++ [reminder s] } :: new, left, ?_⟩
    rw [replicate_succ, cons_append, askFrom_cons, hrun]
    simp [sent, reminder, replicate_succ]

variable {reply}

lemma reminders_eq_iff (said : List Message) (m : Message) (n : Nat) :
    said ++ List.replicate (n + 1) m = said ++ [m] ↔ n = 0 := by
  rw [append_right_inj, ← replicate_one, replicate_inj]
  simp

lemma answered_of_ok {rest : List Reply} {s s' : Session} {a : String} (hreply : reply ≠ .timeout)
    (h : (askFrom post (reply :: rest)).run.run s = (.ok a, s')) :
    ∀ t, (askFrom post (reply :: rest)).run.run t = (answered post reply).run.run (sent rest t) :=
  askFrom_reply post hreply (by rintro reason rfl; cases h) rest

/-- After late replies an answer is the same as at once, but there is one more reminder in the
conversation for each of them. -/
theorem ask_late (hreply : reply ≠ .timeout) (rest : List Reply) (n : Nat) {s s₀ : Session}
    (hs : s.world.replies = List.replicate n .timeout ++ reply :: rest) {a : String}
    (h : (ask post).run.run { s with world.replies := reply :: rest } = (.ok a, s₀)) :
    ∃ s', (ask post).run.run s = (.ok a, s') ∧
      s'.history = s.history ++ List.replicate (n + 1) (reminder s) ++ [.said .assistant (some a)] ∧
      s'.world.prompts.getLast?
        = some { messages := s.history ++ List.replicate (n + 1) (reminder s) } ∧
      (s'.history = s₀.history ↔ n = 0) ∧
      (s'.world.prompts.getLast? = s₀.world.prompts.getLast? ↔ n = 0) := by
  rw [ask, run_get_bind] at h
  obtain ⟨new, left, hlate⟩ := askFrom_late post n (reply :: rest) s
  rw [answered_of_ok post hreply h, ← hs] at hlate
  rw [answered_of_ok post hreply h] at h
  obtain ⟨r₀, s₀', hrun₀, hok₀, hhistory₀, hprompts₀⟩ := answered_ok_iff post reply
    (sent rest { s with world.replies := reply :: rest })
  obtain ⟨rfl, rfl⟩ := Prod.mk.inj (h.symm.trans hrun₀)
  obtain ⟨hanswer, hkeep⟩ := (hok₀ a).mp rfl
  obtain ⟨r, s', hrun, hok, hhistory, hprompts⟩ := answered_ok_iff post reply (sent rest {
    history := s.history ++ List.replicate n (reminder s)
    world := { s.world with prompts := s.world.prompts ++ new, replies := left } })
  -- more reminders can be kept as well as one
  obtain rfl : r = .ok a := by
    refine (hok a).mpr ⟨hanswer, fun hverbose => ⟨(hkeep hverbose).1, fun m hm => ?_⟩⟩
    refine (hkeep hverbose).2 m ?_
    simp only [sent, List.mem_append, List.mem_replicate, List.mem_singleton] at hm ⊢
    rcases hm with (hm | ⟨-, hm⟩) | hm
    · exact Or.inl hm
    · exact Or.inr hm
    · exact Or.inr hm
  have hhistory' : s'.history
      = s.history ++ List.replicate (n + 1) (reminder s) ++ [.said .assistant (some a)] := by
    rw [hhistory a rfl, List.replicate_succ', ← List.append_assoc]
    rfl
  have hprompts' : s'.world.prompts.getLast?
      = some { messages := s.history ++ List.replicate (n + 1) (reminder s) } := by
    rw [hprompts, List.replicate_succ', ← List.append_assoc]
    exact List.getLast?_concat
  refine ⟨s', hlate.trans hrun, hhistory', hprompts', ?_, ?_⟩
  · rw [hhistory', hhistory₀ a rfl, List.append_left_inj]
    exact reminders_eq_iff _ _ n
  · rw [hprompts', hprompts₀, sent, List.getLast?_concat, Option.some_inj, Prompt.mk.injEq,
      and_iff_left rfl]
    exact reminders_eq_iff _ _ n

theorem ask_late_twice : ∃ s', (ask id).run.run
      { world := { replies := [.timeout, .timeout, .text "hi"] } } = (.ok "hi", s') ∧
    s'.history.length = 4 := by
  have hreply : Reply.text "hi" ≠ .timeout := by rintro ⟨⟩
  obtain ⟨s', hrun, hhistory, -⟩ := ask_late id hreply [] 2
    (s := { world := { replies := [.timeout, .timeout, .text "hi"] } }) rfl rfl
  exact ⟨s', hrun, congrArg List.length hhistory⟩

/-- One late reply is enough for a second reminder. -/
theorem late_reminded_twice :
    (((ask id).run.run { world := { replies := [.timeout, .text "hi"] } }).2.history.length,
      ((ask id).run.run { world := { replies := [.text "hi"] } }).2.history.length) = (3, 2) := rfl

/-! ## Tools -/

/-- A call of a known tool with arguments that can be read; the tool always has a result. -/
def Ready (tools : List Tool) (c : ToolCall) : Prop :=
  ∃ tool fields, tools.find? (·.name == c.name) = some tool ∧
    Json.parse c.arguments = .ok (.obj fields) ∧
    ∀ w, ∃ r w', (tool.call fields).run.run w = (.ok r, w')

def Given (tools : List Tool) (c : ToolCall) (r : String) : Prop :=
  ∃ tool fields w w', tools.find? (·.name == c.name) = some tool ∧
    Json.parse c.arguments = .ok (.obj fields) ∧ (tool.call fields).run.run w = (.ok r, w')

/-- What is added to a conversation for rounds of calls with these results. -/
def spoken (results : List (List String)) : List Message :=
  results.flatMap fun rs => rs.flatMap fun r => [.called rs.length, .said .tool (some r)]

/-- The same with one message that asks for all calls of a round. -/
def proper (results : List (List String)) : List Message :=
  results.flatMap fun rs => .called rs.length :: rs.map fun r => .said .tool (some r)

lemma length_eq_one_of_sum {results : List (List String)} (hne : ∀ rs ∈ results, rs ≠ [])
    (h : (results.map List.length).sum = results.length) : ∀ rs ∈ results, rs.length = 1 := by
  induction results with
  | nil => exact fun _ hrs => absurd hrs not_mem_nil
  | cons rs results ih =>
    obtain ⟨hrs, hrest⟩ := forall_mem_cons.mp hne
    have hpos := length_pos_iff.mpr hrs
    have hle : results.length ≤ (results.map List.length).sum := by
      simpa using length_le_sum_of_one_le (results.map List.length) (by
        simpa [Nat.succ_le_iff, length_pos_iff] using hrest)
    rw [map_cons, sum_cons, length_cons] at h
    exact forall_mem_cons.mpr ⟨by omega, ih hrest (by omega)⟩

lemma spoken_eq_proper_iff {results : List (List String)} (hne : ∀ rs ∈ results, rs ≠ []) :
    spoken results = proper results ↔ ∀ rs ∈ results, rs.length = 1 := by
  constructor
  · intro h
    have hlength := congrArg List.length h
    simp only [spoken, proper, length_flatMap, length_cons, length_map, length_nil,
      map_const', sum_replicate, smul_eq_mul, sum_map_add, sum_map_mul_right] at hlength
    exact length_eq_one_of_sum hne (by omega)
  · intro h
    refine flatMap_congr fun rs hrs => ?_
    obtain ⟨r, rfl⟩ := length_eq_one_iff.mp (h rs hrs)
    rfl

variable {tools : List Tool}

lemma callTool_ready {c : ToolCall} (h : Ready tools c) (count : Nat) (s : Session) :
    ∃ r w, (callTool tools count c).run.run s
        = (.ok (), { history := s.history ++ [.called count, .said .tool (some r)], world := w }) ∧
      Given tools c r := by
  obtain ⟨tool, fields, htool, hfields, hcall⟩ := h
  obtain ⟨r, w, hrun⟩ := hcall s.world
  refine ⟨r, w, ?_, tool, fields, s.world, w, htool, hfields, hrun⟩
  simp only [callTool, hfields, htool, run_bind, run_add, run_inWorld, hrun, append_assoc,
    cons_append, nil_append]

lemma callTools_ready {calls : List ToolCall} (h : ∀ c ∈ calls, Ready tools c) (count : Nat)
    (s : Session) : ∃ rs w, (calls.forM (callTool tools count)).run.run s
        = (.ok (), { history := s.history
                        ++ rs.flatMap fun r => [.called count, .said .tool (some r)], world := w }) ∧
      List.Forall₂ (Given tools) calls rs := by
  induction calls generalizing s with
  | nil => exact ⟨[], s.world, by simp [List.forM]; rfl, .nil⟩
  | cons c calls ih =>
    obtain ⟨hc, hcalls⟩ := forall_mem_cons.mp h
    obtain ⟨r, w, hfirst, hr⟩ := callTool_ready hc count s
    obtain ⟨rs, w', hrest, hrs⟩ := ih hcalls
      { history := s.history ++ [.called count, .said .tool (some r)], world := w }
    refine ⟨r :: rs, w', (run_bind_of_ok hfirst _).trans (hrest.trans ?_), .cons hr hrs⟩
    rw [append_assoc]
    rfl

lemma askToolsFrom_calls {calls : List ToolCall} (hne : calls ≠ []) (post : Option (String → String))
    (rest : List Reply) (s : Session) :
    (askToolsFrom tools post (.calls calls :: rest)).run.run s = (do
        calls.forM (callTool tools calls.length)
        askToolsFrom tools none rest : Talk (Option String)).run.run
      ((send (some (tools.map Tool.name)) rest).run.run s).2 := by
  cases calls with
  | nil => exact absurd rfl hne
  | cons c calls => rfl

lemma askToolsFrom_rounds {rounds : List (List ToolCall)} (hne : ∀ calls ∈ rounds, calls ≠ [])
    (hready : ∀ calls ∈ rounds, ∀ c ∈ calls, Ready tools c) (post : Option (String → String))
    (content : String) (rest : List Reply) (s : Session) : ∃ results answer s',
    (askToolsFrom tools post (rounds.map .calls ++ .text content :: rest)).run.run s
      = (.ok (some answer), s') ∧
    List.Forall₂ (List.Forall₂ (Given tools)) rounds results ∧
    answer = (if rounds = [] then post.elim content (· content) else content) ∧
    s'.history = s.history ++ spoken results ++ [.said .assistant (some answer)] := by
  induction rounds generalizing s post with
  | nil =>
    cases post with
    | none => exact ⟨[], content, _, rfl, .nil, rfl, by simp [spoken]⟩
    | some f => exact ⟨[], f content, _, rfl, .nil, rfl, by simp [spoken]⟩
  | cons calls rounds ih =>
    obtain ⟨hcalls, hrounds⟩ := forall_mem_cons.mp hne
    obtain ⟨hcall, hrest⟩ := forall_mem_cons.mp hready
    let l := rounds.map .calls ++ .text content :: rest
    obtain ⟨rs, w, hfirst, hrs⟩ := callTools_ready hcall calls.length
      ((send (some (tools.map Tool.name)) l).run.run s).2
    obtain ⟨results, answer, s', hrun, hresults, hanswer, hhistory⟩ :=
      ih hrounds hrest none { history := _, world := w }
    refine ⟨rs :: results, answer, s', ?_, .cons hrs hresults, ?_, ?_⟩
    · rw [map_cons, cons_append, askToolsFrom_calls hcalls, run_bind_of_ok hfirst]
      exact hrun
    · rw [hanswer]
      simp
    · have hsent : ((send (some (tools.map Tool.name)) l).run.run s).2.history = s.history := rfl
      rw [hhistory, hsent, hrs.length_eq]
      simp [spoken]

/-- A conversation with tools is as it should be, with the edited answer and with each message that
asks for calls just once, exactly if editing does not matter or no tool was called, and every
message asks for one call. -/
theorem askTools_proper_iff (p : String → String) {rounds : List (List ToolCall)}
    (hne : ∀ calls ∈ rounds, calls ≠ []) (hready : ∀ calls ∈ rounds, ∀ c ∈ calls, Ready tools c)
    (content : String) (rest : List Reply) {s : Session}
    (hs : s.world.replies = rounds.map .calls ++ .text content :: rest) : ∃ results answer s',
    (askTools tools (some p)).run.run s = (.ok (some answer), s') ∧
    List.Forall₂ (List.Forall₂ (Given tools)) rounds results ∧
    answer = (if rounds = [] then p content else content) ∧
    s'.history = s.history ++ spoken results ++ [.said .assistant (some answer)] ∧
    (answer = p content ∧
        s'.history = s.history ++ proper results ++ [.said .assistant (some (p content))] ↔
      (rounds = [] ∨ p content = content) ∧ ∀ calls ∈ rounds, calls.length = 1) := by
  obtain ⟨results, answer, s', hrun, hresults, hanswer, hhistory⟩ :=
    askToolsFrom_rounds hne hready (some p) content rest s
  rw [← hs] at hrun
  refine ⟨results, answer, s', hrun, hresults, hanswer, hhistory, ?_⟩
  have hedited : answer = p content ↔ rounds = [] ∨ p content = content := by
    rw [hanswer]
    split
    · rename_i h
      simp [h]
    · rename_i h
      simp [h, eq_comm]
  have hlengths : ∀ P : Nat → Prop, (∀ rs ∈ results, P rs.length) ↔ ∀ calls ∈ rounds, P calls.length := by
    intro P
    have hmap : rounds.map List.length = results.map List.length := by
      rw [← List.forall₂_eq_eq_eq, List.forall₂_map_left_iff, List.forall₂_map_right_iff]
      exact hresults.imp fun _ _ h => h.length_eq
    rw [← List.forall_mem_map, ← hmap, List.forall_mem_map]
  have hsome : ∀ rs ∈ results, rs ≠ [] := by
    simpa [List.length_eq_zero_iff] using (hlengths (· ≠ 0)).mpr (by simpa using hne)
  rw [← hedited, ← hlengths (· = 1), ← spoken_eq_proper_iff hsome, hhistory]
  refine and_congr_right fun h => ?_
  rw [h, List.append_left_inj, List.append_right_inj]

def look : Tool where
  name := "look"
  call := fun fields => return Text.join "," (fields.map Prod.fst)

def lookCalls : List (List ToolCall) :=
  [[⟨"look", "\x7b\x7d"⟩, ⟨"look", "\x7b\x7d"⟩]]

def lookTwice : Session where
  world := { replies := lookCalls.map .calls ++ [.text "done"] }

lemma ready_look : Ready [look] ⟨"look", "\x7b\x7d"⟩ :=
  ⟨look, [], rfl, rfl, fun w => ⟨"", w, rfl⟩⟩

theorem askTools_proper_iff_lookTwice : ∃ results s',
    (askTools [look] (some id)).run.run lookTwice = (.ok (some "done"), s') ∧
      s'.history = spoken results ++ [.said .assistant (some "done")] ∧
      s'.history ≠ proper results ++ [.said .assistant (some "done")] := by
  have hready : ∀ calls ∈ lookCalls, ∀ c ∈ calls, Ready [look] c := by
    simp [lookCalls, ready_look]
  obtain ⟨results, answer, s', hrun, -, rfl, hhistory, hiff⟩ :=
    askTools_proper_iff id (by simp [lookCalls]) hready "done" [] (s := lookTwice) rfl
  exact ⟨results, s', hrun, hhistory, fun h =>
    absurd ((hiff.mp ⟨rfl, h⟩).2 _ List.mem_cons_self) (by decide)⟩

/-- Two calls in one message: the message is there twice, and the answer is not edited. -/
theorem lookTwice_repeated : ((askTools [look] (some (· ++ "!"))).run.run lookTwice).1
      = .ok (some "done") ∧
    ((askTools [look] (some (· ++ "!"))).run.run lookTwice).2.history
      = [.called 2, .said .tool (some ""), .called 2, .said .tool (some ""),
          .said .assistant (some "done")] :=
  ⟨rfl, rfl⟩

end Docsmith.Talk

