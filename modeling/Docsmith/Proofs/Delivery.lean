import Docsmith.Proofs.Unreported
import Docsmith.Service.Analysis
import Docsmith.Service.Comparison

/-! # Which reports arrive

A report is sent again until it arrives or five attempts are used up, and one on success that never
arrives is followed by a report on failure. `attempts` says what becomes of one report; of the two
together at most one arrives, and the service fails exactly if none does (`reports_delivered`). -/

namespace Docsmith

open List

namespace Service

/-! ## One report -/

/-- Whether each of up to `n` attempts fails: there is none after one that arrives. -/
def attempts : Nat → List (Option String) → List Bool
  | 0, _ => []
  | n + 1, some _ :: rest => true :: attempts n rest
  | _ + 1, _ => [false]

section Attempts

variable {outcomes : List (Option String)} (n : Nat)

lemma attempts_refused (reason : String) (rest : List (Option String)) :
    attempts (n + 1) (some reason :: rest) = true :: attempts n rest := rfl

lemma attempts_taken (h : ∀ reason rest, outcomes ≠ some reason :: rest) :
    attempts (n + 1) outcomes = [false] :=
  attempts.eq_3 outcomes n h

lemma refused_or_taken (outcomes : List (Option String)) :
    (∃ reason rest, outcomes = some reason :: rest) ∨
      ∀ reason rest, outcomes ≠ some reason :: rest := by
  by_cases h : ∃ reason rest, outcomes = some reason :: rest
  · exact Or.inl h
  · exact Or.inr fun reason rest heq => h ⟨reason, rest, heq⟩

lemma length_attempts_le (outcomes : List (Option String)) :
    (attempts n outcomes).length ≤ n := by
  induction n generalizing outcomes with
  | zero => exact Nat.le_refl 0
  | succ n ih =>
    rcases refused_or_taken outcomes with ⟨reason, rest, rfl⟩ | htaken
    · exact Nat.succ_le_succ (ih rest)
    · rw [attempts_taken n htaken]
      exact Nat.succ_le_succ (Nat.zero_le n)

lemma attempts_cases (outcomes : List (Option String)) :
    attempts n outcomes = List.replicate n true ∨
      ∃ k, attempts n outcomes = List.replicate k true ++ [false] := by
  induction n generalizing outcomes with
  | zero => exact Or.inl rfl
  | succ n ih =>
    rcases refused_or_taken outcomes with ⟨reason, rest, rfl⟩ | htaken
    · rw [attempts_refused]
      rcases ih rest with h | ⟨k, h⟩
      · exact Or.inl (by rw [h, replicate_succ])
      · exact Or.inr ⟨k + 1, by rw [h, replicate_succ, cons_append]⟩
    · exact Or.inr ⟨0, attempts_taken n htaken⟩

lemma attempts_follow (outcomes : List (Option String)) {i : Nat} {b : Bool}
    (h : (attempts n outcomes)[i]? = some b) : b = outcomes[i]?.join.isSome := by
  induction n generalizing outcomes i with
  | zero => cases h
  | succ n ih =>
    rcases refused_or_taken outcomes with ⟨reason, rest, rfl⟩ | htaken
    · rw [attempts_refused] at h
      cases i with
      | zero => exact (Option.some.inj h).symm
      | succ i => exact ih rest h
    · rw [attempts_taken n htaken] at h
      cases i with
      | succ i => cases h
      | zero =>
        rw [← Option.some.inj h]
        cases outcomes with
        | nil => rfl
        | cons o rest =>
          cases o with
          | none => rfl
          | some reason => exact absurd rfl (htaken reason rest)

end Attempts

def sendings (url body : String) (failed : List Bool) : List Post :=
  failed.map fun b => ⟨url, body, b⟩

def afterSending (w : World) (sent : List Post) : World :=
  { w with outcomes := w.outcomes.drop sent.length, posts := w.posts ++ sent }

lemma post_refused (url body : String) {w : World} {reason : String}
    {rest : List (Option String)} (h : w.outcomes = some reason :: rest) :
    (post url body).run.run w
      = (.error (.reported reason), afterSending w [⟨url, body, true⟩]) := by
  rw [post, run_get_bind]
  simp only [h]
  rw [afterSending, h]
  rfl

lemma post_taken (url body : String) {w : World}
    (h : ∀ reason rest, w.outcomes ≠ some reason :: rest) :
    (post url body).run.run w = (.ok (), afterSending w [⟨url, body, false⟩]) := by
  rw [post, run_get_bind]
  cases houtcomes : w.outcomes with
  | nil =>
    dsimp only
    rw [afterSending, houtcomes]
    rfl
  | cons o rest =>
    cases o with
    | some reason => exact absurd houtcomes (h reason rest)
    | none =>
      dsimp only
      rw [afterSending, houtcomes]
      rfl

lemma afterSending_afterSending (w : World) (good bad : List Post) :
    afterSending (afterSending w good) bad = afterSending w (good ++ bad) := by
  simp only [afterSending, drop_drop, append_assoc, length_append]

lemma afterSending_nil (w : World) : afterSending w [] = w := by
  simp only [afterSending, length_nil, drop_zero, append_nil]

lemma deliverFrom_run (url body : String) (last : Option String) (n : Nat) (w : World) :
    ∃ reason, (deliverFrom url body last n).run.run w
      = (if ∀ b ∈ attempts n w.outcomes, b = true then .error (.undelivered reason) else .ok (),
        afterSending w (sendings url body (attempts n w.outcomes))) := by
  induction n generalizing last w with
  | zero =>
    refine ⟨last, ?_⟩
    rw [if_pos (by simp [attempts])]
    rw [attempts, sendings, map_nil, afterSending_nil]
    rfl
  | succ n ih =>
    rcases refused_or_taken w.outcomes with ⟨reason, rest, hrefused⟩ | htaken
    · rw [deliverFrom, run_tryCatch_error _ (post_refused url body hrefused)]
      obtain ⟨reason', hrest⟩ := ih (some (Fault.reported reason).message)
        (afterSending w [⟨url, body, true⟩])
      have houtcomes : (afterSending w [⟨url, body, true⟩]).outcomes = rest := by
        rw [afterSending, hrefused]
        rfl
      refine ⟨reason', ?_⟩
      rw [hrest, houtcomes, hrefused, attempts_refused, afterSending_afterSending]
      simp only [forall_mem_cons, true_and, sendings, map_cons, singleton_append]
    · refine ⟨none, ?_⟩
      rw [deliverFrom, run_tryCatch_ok _ (post_taken url body htaken), attempts_taken n htaken]
      rfl

/-! ## The reports on some work -/

/-- Attempts `good` to report success and then `bad` to report failure, with a receiver that does
what `outcomes` says. -/
structure Delivery (url : String) (result : Except Fault String) (failure : String → String)
    (outcomes : List (Option String)) (good bad : List Post) (final : Except Fault Unit) :
    Prop where
  /-- Success is reported only of work that succeeded. -/
  success : ∀ p ∈ good, p.url = url ∧ result = .ok p.body
  good_le : good.length ≤ 5
  /-- Failure is reported only of work that failed, or whose report five times did not arrive. -/
  failed : ∀ p ∈ bad, p.url = url ∧ ∃ fault : Fault, p.body = failure fault.message ∧
    (result = .error fault ∨
      good.length = 5 ∧ (∀ q ∈ good, q.failed) ∧ ∃ reason, fault = .undelivered reason)
  bad_le : bad.length ≤ 5
  /-- The receiver decides on each attempt. -/
  follows : ∀ (i : Nat) (p : Post), (good ++ bad)[i]? = some p → p.failed = outcomes[i]?.join.isSome
  /-- The first attempt that arrives is the last one. -/
  stops : ∀ p ∈ (good ++ bad).dropLast, p.failed
  arrives_le : (good ++ bad).countP (!·.failed) ≤ 1
  not_both : ¬((∃ p ∈ good, p.failed = false) ∧ ∃ p ∈ bad, p.failed = false)
  /-- No attempt is left out. -/
  good_persists : (∃ body, result = .ok body) → (∀ p ∈ good, p.failed) → good.length = 5
  bad_persists : (∃ fault, result = .error fault ∧ isReportable fault) ∨
    (∃ body, result = .ok body) ∧ (∀ p ∈ good, p.failed) → (∀ p ∈ bad, p.failed) → bad.length = 5
  raises : (∃ fault, final = .error fault) ↔ ∀ p ∈ good ++ bad, p.failed

/-- A service that does some work and reports on it: nothing else happens to the world. -/
def Reports {α : Type} (url : String) (work : Run α) (success : α → String)
    (failure : String → String) (service : Run Unit) : Prop :=
  ∀ w, ∃ good bad final,
    Delivery url ((work.run.run w).1.map success) failure w.outcomes good bad final ∧
      service.run.run w = (final, afterSending (work.run.run w).2 (good ++ bad))

section Sendings

variable {url body : String} {n : Nat} {outcomes : List (Option String)} {good bad : List Post}

lemma length_sendings_le (url body : String) (n : Nat) (outcomes : List (Option String)) :
    (sendings url body (attempts n outcomes)).length ≤ n := by
  rw [sendings, length_map]
  exact length_attempts_le n outcomes

lemma mem_sendings {p : Post} {flags : List Bool} (h : p ∈ sendings url body flags) :
    p.url = url ∧ p.body = body := by
  obtain ⟨b, -, rfl⟩ := mem_map.mp h
  exact ⟨rfl, rfl⟩

lemma all_failed_iff (url body : String) {flags : List Bool} :
    (∀ p ∈ sendings url body flags, p.failed = true) ↔ ∀ b ∈ flags, b = true := by
  rw [sendings, forall_mem_map]

lemma length_of_all_failed (h : ∀ p ∈ sendings url body (attempts n outcomes), p.failed) :
    (sendings url body (attempts n outcomes)).length = n := by
  rw [all_failed_iff] at h
  rw [sendings, length_map]
  rcases attempts_cases n outcomes with hall | ⟨k, hlast⟩
  · rw [hall, length_replicate]
  · rw [hlast] at h
    exact absurd (h false (by simp)) Bool.false_ne_true

lemma sendings_stop (url body : String) (n : Nat) (outcomes : List (Option String)) :
    ∀ p ∈ (sendings url body (attempts n outcomes)).dropLast, p.failed := by
  rw [sendings, ← map_dropLast]
  intro p hp
  obtain ⟨b, hb, rfl⟩ := mem_map.mp hp
  rcases attempts_cases n outcomes with hall | ⟨k, hlast⟩
  · rw [hall] at hb
    exact eq_of_mem_replicate (mem_of_mem_dropLast hb)
  · rw [hlast, dropLast_concat] at hb
    exact eq_of_mem_replicate hb

lemma sendings_follow {i : Nat} {p : Post}
    (h : (sendings url body (attempts n outcomes))[i]? = some p) :
    p.failed = outcomes[i]?.join.isSome := by
  rw [sendings, getElem?_map, Option.map_eq_some_iff] at h
  obtain ⟨b, hb, rfl⟩ := h
  exact attempts_follow n outcomes hb

lemma stops_append (hgood : ∀ p ∈ good, p.failed = true)
    (hbad : ∀ p ∈ bad.dropLast, p.failed = true) :
    ∀ p ∈ (good ++ bad).dropLast, p.failed = true := by
  intro p hp
  by_cases hnil : bad = []
  · rw [hnil, append_nil] at hp
    exact hgood p (mem_of_mem_dropLast hp)
  · rw [dropLast_append_of_ne_nil hnil] at hp
    exact (mem_append.mp hp).elim (hgood p) (hbad p)

lemma arrives_le_one {sent : List Post} (h : ∀ p ∈ sent.dropLast, p.failed = true) :
    sent.countP (!·.failed) ≤ 1 := by
  by_cases hnil : sent = []
  · rw [hnil]
    exact Nat.zero_le 1
  · rw [← dropLast_append_getLast hnil, countP_append]
    have hfront : sent.dropLast.countP (!·.failed) = 0 :=
      countP_eq_zero.mpr fun p hp => by simp [h p hp]
    rw [hfront, Nat.zero_add]
    exact countP_le_length

lemma not_both_arrive (h : ∀ p ∈ (good ++ bad).dropLast, p.failed = true) :
    ¬((∃ p ∈ good, p.failed = false) ∧ ∃ p ∈ bad, p.failed = false) := by
  rintro ⟨⟨p, hp, harrives⟩, ⟨q, hq, -⟩⟩
  have hmem : p ∈ (good ++ bad).dropLast := by
    rw [dropLast_append_of_ne_nil (ne_nil_of_mem hq)]
    exact mem_append_left _ hp
  rw [h p hmem] at harrives
  cases harrives

end Sendings

section Delivery

variable {url body : String} {failure : String → String} {outcomes : List (Option String)}

lemma delivery_success
    (harrives : ¬∀ b ∈ attempts 5 outcomes, b = true) :
    Delivery url (.ok body) failure outcomes (sendings url body (attempts 5 outcomes)) []
      (.ok ()) := by
  have hstops := sendings_stop url body 5 outcomes
  rw [← all_failed_iff url body] at harrives
  rw [← append_nil (sendings url body (attempts 5 outcomes))] at hstops
  exact {
    success := fun p hp => ⟨(mem_sendings hp).1, by rw [(mem_sendings hp).2]⟩
    good_le := length_sendings_le url body 5 outcomes
    failed := fun p hp => absurd hp not_mem_nil
    bad_le := Nat.zero_le 5
    follows := fun i p hp => sendings_follow (by rwa [append_nil] at hp)
    stops := hstops
    arrives_le := arrives_le_one hstops
    not_both := not_both_arrive hstops
    good_persists := fun _ h => length_of_all_failed h
    bad_persists := by
      rintro (⟨fault, hfault, -⟩ | ⟨-, h⟩)
      · cases hfault
      · exact absurd h harrives
    raises := by
      rw [append_nil]
      refine ⟨?_, fun h => absurd h harrives⟩
      rintro ⟨fault, ⟨⟩⟩ }

lemma delivery_failure {result : Except Fault String} (good : List Post) {fault : Fault}
    {reason : Option String}
    (hgood : ∀ p ∈ good, p.url = url ∧ result = .ok p.body)
    (hcause : result = .error fault ∨
      good.length = 5 ∧ (∀ q ∈ good, q.failed) ∧ ∃ reason, fault = .undelivered reason)
    (hfailed : ∀ p ∈ good, p.failed) (hlength : good.length ≤ 5)
    (hfollows : ∀ (i : Nat) (p : Post), good[i]? = some p → p.failed = outcomes[i]?.join.isSome) :
    Delivery url result failure outcomes good
      (sendings url (failure fault.message) (attempts 5 (outcomes.drop good.length)))
      (if ∀ b ∈ attempts 5 (outcomes.drop good.length), b = true then .error (.undelivered reason)
        else .ok ()) := by
  have hstops := stops_append hfailed
    (sendings_stop url (failure fault.message) 5 (outcomes.drop good.length))
  exact {
    success := hgood
    good_le := hlength
    failed := fun p hp => ⟨(mem_sendings hp).1, fault, (mem_sendings hp).2, hcause⟩
    bad_le := length_sendings_le _ _ 5 _
    follows := by
      intro i p hp
      by_cases hi : i < good.length
      · rw [getElem?_append_left hi] at hp
        exact hfollows i p hp
      · rw [getElem?_append_right (Nat.le_of_not_lt hi)] at hp
        rw [sendings_follow hp, getElem?_drop, Nat.add_sub_cancel' (Nat.le_of_not_lt hi)]
    stops := hstops
    arrives_le := arrives_le_one hstops
    not_both := not_both_arrive hstops
    good_persists := by
      rintro ⟨body, hbody⟩ -
      rcases hcause with hcause | ⟨hfive, -⟩
      · rw [hbody] at hcause
        cases hcause
      · exact hfive
    bad_persists := fun _ h => length_of_all_failed h
    raises := by
      rw [forall_mem_append, all_failed_iff]
      by_cases hall : ∀ b ∈ attempts 5 (outcomes.drop good.length), b = true
      · rw [if_pos hall]
        exact ⟨fun _ => ⟨hfailed, hall⟩, fun _ => ⟨_, rfl⟩⟩
      · rw [if_neg hall]
        refine ⟨?_, fun h => absurd h.2 hall⟩
        rintro ⟨fault, ⟨⟩⟩ }

lemma delivery_none {fault : Fault} (h : isReportable fault = false) :
    Delivery url (.error fault) failure outcomes [] [] (.error fault) where
  success := fun p hp => absurd hp not_mem_nil
  good_le := Nat.zero_le 5
  failed := fun p hp => absurd hp not_mem_nil
  bad_le := Nat.zero_le 5
  follows := fun i p hp => by cases hp
  stops := fun p hp => absurd hp not_mem_nil
  arrives_le := Nat.zero_le 1
  not_both := fun h => absurd h.1.choose_spec.1 not_mem_nil
  good_persists := fun h => by cases h.choose_spec
  bad_persists := by
    rintro (⟨fault, hfault, hreportable⟩ | ⟨⟨body, hbody⟩, -⟩)
    · cases hfault
      rw [h] at hreportable
      cases hreportable
    · cases hbody
  raises := ⟨fun _ p hp => absurd hp not_mem_nil, fun _ => ⟨fault, rfl⟩⟩

end Delivery

lemma deliver_run (url body : String) (w : World) :
    ∃ reason, (deliver url body usualAttempts).run.run w
      = (if ∀ b ∈ attempts 5 w.outcomes, b = true then .error (.undelivered reason) else .ok (),
        afterSending w (sendings url body (attempts 5 w.outcomes))) :=
  deliverFrom_run url body none 5 w

lemma reports_workAndReport (url : String) {job : Run String} (failure : String → String)
    (hjob : Leads (Unreported AnyChange) job) :
    Reports url job id failure (workAndReport url job failure) := by
  intro w
  have houtcomes := (hjob w).outcomes
  have hid : (job.run.run w).1.map id = (job.run.run w).1 := congrFun Except.map_id _
  rcases hrun : job.run.run w with ⟨result, w'⟩
  rw [hrun] at houtcomes hid
  rw [hid]
  cases result with
  | error fault =>
    have hwork : (do deliver url (← job) usualAttempts : Run Unit).run.run w
        = (.error fault, w') := by
      rw [run_bind, hrun]
    rw [workAndReport, run_tryCatch_error _ hwork]
    by_cases hreportable : isReportable fault = true
    · rw [if_pos hreportable]
      obtain ⟨reason, hdeliver⟩ := deliver_run url (failure fault.message) w'
      rw [hdeliver, houtcomes]
      exact ⟨[], _, _, delivery_failure [] (by simp) (Or.inl rfl) (by simp)
        (Nat.zero_le 5) (by simp), rfl⟩
    · rw [if_neg hreportable]
      exact ⟨[], [], _, delivery_none (by simpa using hreportable), by
        rw [append_nil, afterSending_nil]
        rfl⟩
  | ok body =>
    obtain ⟨reason, hdeliver⟩ := deliver_run url body w'
    have hwork : (do deliver url (← job) usualAttempts : Run Unit).run.run w
        = (deliver url body usualAttempts).run.run w' := by
      rw [run_bind, hrun]
    rw [hdeliver, houtcomes] at hwork
    by_cases hall : ∀ b ∈ attempts 5 w.outcomes, b = true
    · -- the report of success is lost, which is a failure to be reported
      rw [if_pos hall] at hwork
      have hreportable : isReportable (.undelivered reason) = true := rfl
      rw [workAndReport, run_tryCatch_error _ hwork, if_pos hreportable]
      have hfailed := (all_failed_iff url body).mpr hall
      have hfive := length_of_all_failed hfailed
      obtain ⟨reason', hdeliver'⟩ := deliver_run url (failure (Fault.undelivered reason).message)
        (afterSending w' (sendings url body (attempts 5 w.outcomes)))
      have hrest : (afterSending w' (sendings url body (attempts 5 w.outcomes))).outcomes
          = w.outcomes.drop (sendings url body (attempts 5 w.outcomes)).length := by
        rw [afterSending, houtcomes]
      rw [hdeliver', hrest, afterSending_afterSending]
      exact ⟨_, _, _, delivery_failure _
        (fun p hp => ⟨(mem_sendings hp).1, by rw [(mem_sendings hp).2]⟩)
        (Or.inr ⟨hfive, hfailed, reason, rfl⟩) hfailed (Nat.le_of_eq hfive)
        (fun i p => sendings_follow), rfl⟩
    · rw [if_neg hall] at hwork
      rw [workAndReport, run_tryCatch_ok _ hwork]
      exact ⟨_, [], _, delivery_success hall, by rw [append_nil]⟩

lemma Reports.of_map {α : Type} {url : String} {work : Run α} {success : α → String}
    {failure : String → String} {service : Run Unit}
    (h : Reports url (do return success (← work)) id failure service) :
    Reports url work success failure service := by
  intro w
  obtain ⟨good, bad, final, hdelivery, hrun⟩ := h w
  rw [run_map] at hdelivery hrun
  have hid : ((work.run.run w).1.map success).map id = (work.run.run w).1.map success :=
    congrFun Except.map_id _
  rw [hid] at hdelivery
  exact ⟨good, bad, final, hdelivery, hrun⟩

/-! ## The two services -/

lemma unreported_present {δ : Type} (d : Option δ) :
    Leads (Unreported AnyChange) (Report.present d) := by
  cases d with
  | none => exact leads_throw .nothingToReport
  | some d => exact leads_pure d

lemma unreported_reportCollect (p : Project) :
    Leads (Unreported AnyChange) (Report.collect p) := by
  rw [Report.collect]
  refine (leads_ofExcept _).bind fun routines => (leads_mapM (fun r => ?_) _).bind fun functions =>
    (leads_ofExcept _).bind fun records => (leads_mapM (fun r => ?_) _).bind fun classes =>
      (unreported_files _).bind fun modules => (leads_ofExcept _).bind fun modules =>
        (unreported_files _).bind fun repo => (unreported_present repo).bind fun repo =>
          (leads_ofExcept _).bind fun repo => leads_pure _
  · exact (unreported_files _).bind fun d => (unreported_present d).bind fun d => leads_pure _
  · exact (unreported_files _).bind fun d => (unreported_present d).bind fun d => leads_pure _

lemma unreported_taskAnalyse (parse : Pipeline.Parser) (place : String) (task : Task) :
    Leads (Unreported AnyChange) (analyse parse place task) :=
  (leads_ofExcept _).bind fun language =>
    (Pipeline.unreported_document parse (some language) _).bind unreported_reportCollect

lemma reports_work (parse : Pipeline.Parser) (place : String) (task : Task) :
    Reports task.callback (analyse parse place task) (successBody task) (failureBody task)
      (work parse place task) :=
  .of_map (reports_workAndReport _ _
    ((unreported_taskAnalyse parse place task).bind fun _ => leads_pure _))

def compared (c : Comparison) : Run String := do
  compare (← Run.ofExcept (c.results.mapM readReport))

lemma unreported_compared (c : Comparison) : Leads (Unreported AnyChange) (compared c) := by
  have hnotes : ∀ f f', Talk.Noted f f' → AnyChange f f' := fun _ _ _ => trivial
  exact (leads_ofExcept _).bind fun _ => (leads_ofExcept _).bind fun _ =>
    (leads_ofExcept _).bind fun _ => (Generate.unreported_askUser hnotes _ id).bind fun _ =>
      (unreported_files _).bind fun _ => leads_pure _

lemma workComparison_eq (c : Comparison) :
    workComparison c = workAndReport c.callback
      (do return (comparisonBody c.id .success "ok" (some (← compared c))).compact)
      fun message => (comparisonBody c.id .failure message none).compact := by
  rw [workComparison, compared, bind_assoc]

lemma compact_status (name : String) (v : Json) : ∃ before : String,
    ∀ (n : Int) (fields : List (String × Json)), ∃ after,
      (Json.obj ((name, v) :: ("status", .int n) :: fields)).compact
        = before ++ (toString n ++ after) := by
  have hline : ∀ level, Json.lineStart .compact level = "" := fun _ => rfl
  have hcomma : Json.Style.compact.comma = "," := rfl
  refine ⟨"\x7b" ++ (Json.writeString .compact name ++ Json.Style.compact.colon
      ++ Json.write .compact 1 v ++ "," ++ Json.writeString .compact "status"
      ++ Json.Style.compact.colon), fun n fields => ⟨(Json.writeFields .compact 1 fields).foldl
        (fun done t => done ++ "," ++ t) "" ++ "\x7d", ?_⟩⟩
  rw [Json.compact, Json.write, Json.writeFields, Json.writeFields, Json.writeRow, Text.join,
    foldl_cons, Json.write]
  simp only [hline, hcomma, String.append_empty, String.empty_append]
  have hnumber : toString n = toString n ++ "" := String.append_empty.symm
  rw [← String.append_assoc, Text.foldl_join, hnumber, Text.foldl_join]
  simp only [String.append_assoc, String.empty_append]

lemma compact_status_ne (name : String) (v : Json) (fields fields' : List (String × Json)) :
    (Json.obj ((name, v) :: ("status", .int 1) :: fields)).compact
      ≠ (Json.obj ((name, v) :: ("status", .int 2) :: fields')).compact := by
  obtain ⟨before, hbefore⟩ := compact_status name v
  obtain ⟨after, hafter⟩ := hbefore 1 fields
  obtain ⟨after', hafter'⟩ := hbefore 2 fields'
  have hone : toString (1 : Int) = "1" := rfl
  have htwo : toString (2 : Int) = "2" := rfl
  rw [hafter, hafter']
  intro heq
  have hlist := congrArg String.toList heq
  simp only [String.toList_append, append_cancel_left_eq] at hlist
  exact absurd (List.cons.inj hlist).1 (by decide)

/-- The services report as they should, and one can tell their reports apart. -/
theorem reports_delivered :
    (∀ (parse : Pipeline.Parser) (place : String) (task : Task),
      Reports task.callback (analyse parse place task) (successBody task) (failureBody task)
          (work parse place task) ∧
        ∀ report message, successBody task report ≠ failureBody task message) ∧
    ∀ c : Comparison,
      Reports c.callback (compared c)
          (fun text => (comparisonBody c.id .success "ok" (some text)).compact)
          (fun message => (comparisonBody c.id .failure message none).compact)
          (workComparison c) ∧
        ∀ text message, (comparisonBody c.id .success "ok" (some text)).compact
          ≠ (comparisonBody c.id .failure message none).compact := by
  refine ⟨fun parse place task =>
      ⟨reports_work parse place task, fun report message => compact_status_ne _ _ _ _⟩,
    fun c => ⟨?_, fun text message => compact_status_ne _ _ _ _⟩⟩
  rw [workComparison_eq]
  exact .of_map (reports_workAndReport _ _ ((unreported_compared c).bind fun _ => leads_pure _))

end Service

end Docsmith

