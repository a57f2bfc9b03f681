import Docsmith.Fault
import Mathlib

/-! # Runs of steps

What a step did to the state before it failed stays. A run of two steps goes well exactly if both
parts do (`run_bind_ok`). `Leads` says where a step can lead, whether it fails or not. `Rules.Does`
says that a step keeps states fit for some rules and fails only as the rules allow. -/

namespace Docsmith

open List

variable {σ α β : Type}

/-! ## Steps one after the other -/

lemma run_bind {σ α β : Type} (x : ExceptT Fault (StateM σ) α)
    (k : α → ExceptT Fault (StateM σ) β) (s : σ) :
    (x >>= k).run.run s = match x.run.run s with
      | (.ok a, s') => (k a).run.run s'
      | (.error e, s') => (.error e, s') := by
  show (ExceptT.bindCont k (x.run.run s).1).run (x.run.run s).2 = _
  rcases x.run.run s with ⟨r, s'⟩
  cases r with
  | ok a | error e => rfl

lemma run_bind_ok {σ : Type} {x : ExceptT Fault (StateM σ) α}
    {k : α → ExceptT Fault (StateM σ) β} {b : β} {s s' : σ} :
    (x >>= k).run.run s = (.ok b, s') ↔
      ∃ a s₁, x.run.run s = (.ok a, s₁) ∧ (k a).run.run s₁ = (.ok b, s') := by
  rw [run_bind]
  rcases x.run.run s with ⟨r, s₁⟩
  cases r with
  | error e =>
    constructor
    · intro h
      cases h
    · rintro ⟨a, s', hfirst, -⟩
      cases hfirst
  | ok a =>
    constructor
    · exact fun h => ⟨a, s₁, rfl, h⟩
    · rintro ⟨a', s', hfirst, hrest⟩
      obtain ⟨ha, rfl⟩ := Prod.mk.inj hfirst
      obtain rfl := Except.ok.inj ha
      exact hrest

lemma run_bind_of_ok {x : ExceptT Fault (StateM σ) α} {a : α} {s s' : σ}
    (h : x.run.run s = (.ok a, s')) (k : α → ExceptT Fault (StateM σ) β) :
    (x >>= k).run.run s = (k a).run.run s' := by
  rw [run_bind, h]

lemma run_get_bind (k : σ → ExceptT Fault (StateM σ) α) (s : σ) :
    (get >>= k).run.run s = (k s).run.run s := rfl

lemma run_modify_bind (f : σ → σ) (k : PUnit → ExceptT Fault (StateM σ) α) (s : σ) :
    (modify f >>= k).run.run s = (k ()).run.run (f s) := rfl

lemma run_eq_pair {x : ExceptT Fault (StateM σ) α} {s : σ} {r : Except Fault α}
    (h : (x.run.run s).1 = r) : x.run.run s = (r, (x.run.run s).2) :=
  Prod.ext h rfl

lemma run_map {β : Type} (f : α → β) (x : ExceptT Fault (StateM σ) α) (s : σ) :
    (do return f (← x) : ExceptT Fault (StateM σ) β).run.run s
      = ((x.run.run s).1.map f, (x.run.run s).2) := by
  rw [run_bind]
  rcases x.run.run s with ⟨r, s'⟩
  cases r with
  | error e | ok a => rfl

/-! ## Failures that are caught -/

section Catch

variable {x : ExceptT Fault (StateM σ) α} {s s' : σ}

lemma run_tryCatch_ok {a : α} (handle : Fault → ExceptT Fault (StateM σ) α)
    (h : x.run.run s = (.ok a, s')) : (tryCatch x handle).run.run s = (.ok a, s') := by
  have hx : x s = (.ok a, s') := h
  simp only [tryCatch, tryCatchThe, MonadExceptOf.tryCatch, ExceptT.tryCatch, ExceptT.run_mk,
    StateT.run_bind]
  simp only [StateT.run, hx]
  rfl

lemma run_tryCatch_error {e : Fault} (handle : Fault → ExceptT Fault (StateM σ) α)
    (h : x.run.run s = (.error e, s')) :
    (tryCatch x handle).run.run s = (handle e).run.run s' := by
  have hx : x s = (.error e, s') := h
  simp only [tryCatch, tryCatchThe, MonadExceptOf.tryCatch, ExceptT.tryCatch, ExceptT.run_mk,
    StateT.run_bind]
  simp only [StateT.run, hx]
  rfl

end Catch

/-! ## Where steps can lead -/

/-- Whether it fails or not, a step leads from a state to one that is related to it. -/
def Leads (R : σ → σ → Prop) (x : ExceptT Fault (StateM σ) α) : Prop :=
  ∀ s, R s (x.run.run s).2

variable {R : σ → σ → Prop}

lemma leads_get_bind {k : σ → ExceptT Fault (StateM σ) α}
    (h : ∀ s, R s ((k s).run.run s).2) : Leads R (get >>= k) := by
  intro s
  rw [run_get_bind]
  exact h s

variable [IsPreorder σ R]

lemma leads_of_eq {x : ExceptT Fault (StateM σ) α} (h : ∀ s, (x.run.run s).2 = s) :
    Leads R x := by
  intro s
  rw [h s]
  exact refl_of R s

lemma leads_pure (a : α) : Leads R (pure a : ExceptT Fault (StateM σ) α) :=
  leads_of_eq fun _ => rfl

lemma leads_throw (e : Fault) : Leads R (throw e : ExceptT Fault (StateM σ) α) :=
  leads_of_eq fun _ => rfl

lemma Leads.bind {x : ExceptT Fault (StateM σ) α} {k : α → ExceptT Fault (StateM σ) β}
    (hx : Leads R x) (hk : ∀ a, Leads R (k a)) : Leads R (x >>= k) := by
  intro s
  have hfirst := hx s
  rw [run_bind]
  rcases hrun : x.run.run s with ⟨r, s'⟩
  rw [hrun] at hfirst
  cases r with
  | error e => exact hfirst
  | ok a => exact trans_of R hfirst (hk a s')

lemma leads_mapM {work : α → ExceptT Fault (StateM σ) β} (hwork : ∀ a, Leads R (work a))
    (xs : List α) : Leads R (xs.mapM work) := by
  induction xs with
  | nil => exact leads_pure []
  | cons a xs ih =>
    rw [mapM_cons]
    exact (hwork a).bind fun b => ih.bind fun bs => leads_pure (b :: bs)

variable {work : α → ExceptT Fault (StateM σ) PUnit}

lemma leads_forM_of_mem {xs : List α} (hwork : ∀ a ∈ xs, Leads R (work a)) :
    Leads R (xs.forM work) := by
  induction xs with
  | nil => exact leads_pure ()
  | cons a xs ih =>
    exact (hwork a mem_cons_self).bind fun _ => ih fun b hb => hwork b (mem_cons_of_mem _ hb)

lemma leads_forM (hwork : ∀ a, Leads R (work a)) (xs : List α) : Leads R (xs.forM work) :=
  leads_forM_of_mem fun a _ => hwork a

lemma leads_filterMapM {work : α → ExceptT Fault (StateM σ) (Option β)}
    (hwork : ∀ a, Leads R (work a)) (xs : List α) : Leads R (xs.filterMapM work) := by
  induction xs with
  | nil => exact leads_pure []
  | cons a xs ih =>
    rw [filterMapM_cons]
    refine (hwork a).bind fun o => ?_
    cases o with
    | none => exact ih
    | some b => exact ih.bind fun bs => leads_pure (b :: bs)

lemma leads_flatMapM {work : α → ExceptT Fault (StateM σ) (List β)}
    (hwork : ∀ a, Leads R (work a)) (xs : List α) : Leads R (xs.flatMapM work) := by
  have hloop : ∀ ys, Leads R (List.flatMapM.loop work xs ys) := by
    induction xs with
    | nil => exact fun ys => leads_pure _
    | cons a xs ih =>
      intro ys
      rw [List.flatMapM.loop]
      exact (hwork a).bind fun bs => ih _
  exact hloop []

/-! ## What steps do -/

/-- Which states are fit, where a step may lead from one, and how it may fail. -/
structure Rules (σ : Type) where
  fit : σ → Prop
  leads : σ → σ → Prop
  fails : Fault → Prop
  refl : ∀ s, leads s s
  trans : ∀ {s s' s''}, leads s s' → leads s' s'' → leads s s''

namespace Rules

variable (T : Rules σ)

/-- From a fit state in which `pre` holds a step leads to a fit one, and if it does not fail `post`
holds there. -/
def Does (pre : σ → Prop) (x : ExceptT Fault (StateM σ) α) (post : α → σ → Prop) : Prop :=
  ∀ s, T.fit s → pre s → ∃ r s', x.run.run s = (r, s') ∧ T.fit s' ∧ T.leads s s' ∧
    (∀ a, r = .ok a → post a s') ∧ ∀ e, r = .error e → T.fails e

def Stable (fact : σ → Prop) : Prop :=
  ∀ s s', T.leads s s' → fact s → fact s'

variable {T} {pre : σ → Prop} {x : ExceptT Fault (StateM σ) α}
  {k : α → ExceptT Fault (StateM σ) β} {mid : α → σ → Prop} {post : β → σ → Prop}

lemma Stable.and {fact fact' : σ → Prop} (h : T.Stable fact) (h' : T.Stable fact') :
    T.Stable fun s => fact s ∧ fact' s :=
  fun s s' hleads hs => ⟨h s s' hleads hs.1, h' s s' hleads hs.2⟩

lemma does_of_run {post : α → σ → Prop} (h : ∀ s, T.fit s → pre s →
    ∃ a s', x.run.run s = (.ok a, s') ∧ T.fit s' ∧ T.leads s s' ∧ post a s') :
    T.Does pre x post := by
  intro s hs hpre
  obtain ⟨a, s', hrun, hfit, hleads, hpost⟩ := h s hs hpre
  refine ⟨.ok a, s', hrun, hfit, hleads, fun a' ha => ?_, fun e he => ?_⟩
  · exact Except.ok.inj ha ▸ hpost
  · cases he

lemma Does.run {post : α → σ → Prop} (h : T.Does pre x post) (hfails : ∀ e, ¬ T.fails e)
    {s : σ} (hs : T.fit s) (hpre : pre s) :
    ∃ a s', x.run.run s = (.ok a, s') ∧ T.fit s' ∧ T.leads s s' ∧ post a s' := by
  obtain ⟨r, s', hrun, hfit, hleads, hok, herror⟩ := h s hs hpre
  cases r with
  | error e => exact absurd (herror e rfl) (hfails e)
  | ok a => exact ⟨a, s', hrun, hfit, hleads, hok a rfl⟩

lemma does_pure {post : α → σ → Prop} {a : α} (h : ∀ s, T.fit s → pre s → post a s) :
    T.Does pre (pure a) post :=
  does_of_run fun s hs hpre => ⟨a, s, rfl, hs, T.refl s, h s hs hpre⟩

lemma does_done {a : α} : T.Does pre (pure a) fun _ _ => True :=
  does_pure fun _ _ _ => trivial

lemma does_throw {post : α → σ → Prop} {e : Fault} (h : T.fails e) :
    T.Does pre (throw e) post := by
  intro s hs _
  refine ⟨.error e, s, rfl, hs, T.refl s, fun a ha => ?_, fun e' he => ?_⟩
  · cases ha
  · exact Except.error.inj he ▸ h

lemma does_get : T.Does pre (get : ExceptT Fault (StateM σ) σ) fun a s => a = s ∧ pre s :=
  does_of_run fun s hs hpre => ⟨s, s, rfl, hs, T.refl s, rfl, hpre⟩

lemma does_modify {f : σ → σ} {post : PUnit → σ → Prop}
    (h : ∀ s, T.fit s → pre s → T.fit (f s) ∧ T.leads s (f s) ∧ post () (f s)) :
    T.Does pre (modify f : ExceptT Fault (StateM σ) PUnit) post :=
  does_of_run fun s hs hpre => ⟨(), f s, rfl, h s hs hpre⟩

lemma Does.bind (hx : T.Does pre x mid) (hk : ∀ a, T.Does (mid a) (k a) post) :
    T.Does pre (x >>= k) post := by
  intro s hs hpre
  obtain ⟨r, s₁, hrun, hfit, hleads, hok, herror⟩ := hx s hs hpre
  cases r with
  | error e =>
    refine ⟨.error e, s₁, by rw [run_bind, hrun], hfit, hleads, fun b hb => ?_, fun e' he => ?_⟩
    · cases hb
    · exact Except.error.inj he ▸ herror e rfl
  | ok a =>
    obtain ⟨r, s₂, hrun', hfit', hleads', hpost⟩ := hk a s₁ hfit (hok a rfl)
    exact ⟨r, s₂, by rw [run_bind, hrun]; exact hrun', hfit', T.trans hleads hleads', hpost⟩

lemma Does.bind_of {fact : α → Prop} (hx : T.Does pre x fun a s => fact a ∧ mid a s)
    (hk : ∀ a, fact a → T.Does (mid a) (k a) post) : T.Does pre (x >>= k) post :=
  hx.bind fun a s hs h => hk a h.1 s hs h.2

lemma Does.bind_fact {fact : α → Prop} (hx : T.Does pre x fun a _ => fact a)
    (hk : ∀ a, fact a → T.Does (fun _ => True) (k a) post) : T.Does pre (x >>= k) post :=
  hx.bind fun a s hs h => hk a h s hs trivial

lemma Does.imp {pre' : σ → Prop} {mid' : α → σ → Prop} (h : T.Does pre x mid)
    (hpre : ∀ s, T.fit s → pre' s → pre s)
    (hmid : ∀ a s, T.fit s → mid a s → mid' a s) : T.Does pre' x mid' := by
  intro s hs hpre'
  obtain ⟨r, s', hrun, hfit, hleads, hok, herror⟩ := h s hs (hpre s hs hpre')
  exact ⟨r, s', hrun, hfit, hleads, fun a ha => hmid a s' hfit (hok a ha), herror⟩

lemma Does.given {pre' : σ → Prop} (h : T.Does pre x mid)
    (hpre : ∀ s, T.fit s → pre' s → pre s) : T.Does pre' x mid :=
  h.imp hpre fun _ _ _ h => h

lemma Does.gives {mid' : α → σ → Prop} (h : T.Does pre x mid)
    (hmid : ∀ a s, T.fit s → mid a s → mid' a s) : T.Does pre x mid' :=
  h.imp (fun _ _ h => h) hmid

lemma Does.any (h : T.Does (fun _ => True) x mid) : T.Does pre x mid :=
  h.imp (fun _ _ _ => trivial) fun _ _ _ h => h

lemma Does.frame {fact : σ → Prop} (hfact : T.Stable fact) (h : T.Does pre x mid) :
    T.Does (fun s => pre s ∧ fact s) x fun a s => mid a s ∧ fact s := by
  rintro s hs ⟨hpre, hholds⟩
  obtain ⟨r, s', hrun, hfit, hleads, hok, herror⟩ := h s hs hpre
  exact ⟨r, s', hrun, hfit, hleads, fun a ha => ⟨hok a ha, hfact s s' hleads hholds⟩, herror⟩

lemma Does.carry {pre' fact : σ → Prop} (hx : T.Does pre x mid) (hfact : T.Stable fact)
    (hpre : ∀ s, T.fit s → pre' s → pre s ∧ fact s)
    (hk : ∀ a, T.Does (fun s => mid a s ∧ fact s) (k a) post) : T.Does pre' (x >>= k) post :=
  ((hx.frame hfact).imp hpre fun _ _ _ h => h).bind hk

lemma Does.seq (hx : T.Does pre x mid) (hpre : T.Stable pre)
    (hk : ∀ a, T.Does (fun s => mid a s ∧ pre s) (k a) post) : T.Does pre (x >>= k) post :=
  hx.carry hpre (fun _ _ h => ⟨h, h⟩) hk

lemma Does.after (hpre : T.Stable pre) (hx : T.Does pre x fun _ _ => True)
    (hk : ∀ a, T.Does pre (k a) post) : T.Does pre (x >>= k) post :=
  hx.seq hpre fun a => (hk a).imp (fun _ _ h => h.2) fun _ _ _ h => h

variable {xs : List α}

lemma does_forM (hwork : ∀ a ∈ xs, T.Does pre (work a) fun _ => pre) :
    T.Does pre (xs.forM work) fun _ => pre := by
  induction xs with
  | nil => exact does_pure fun _ _ h => h
  | cons a xs ih =>
    refine (hwork a mem_cons_self).bind fun _ => ?_
    exact ih fun b hb => hwork b (mem_cons_of_mem _ hb)

lemma does_forM_of_stable (hpre : T.Stable pre)
    (hwork : ∀ b ∈ xs, T.Does pre (work b) fun _ _ => True) :
    T.Does pre (xs.forM work) fun _ _ => True := by
  have hkept : T.Does pre (xs.forM work) fun _ => pre := does_forM fun b hb =>
    ((hwork b hb).frame hpre).imp (fun _ _ h => ⟨h, h⟩) fun _ _ _ h => h.2
  exact hkept.imp (fun _ _ h => h) fun _ _ _ _ => trivial

lemma does_forM_of_mem {post : σ → Prop} {a : α} (hpre : T.Stable pre) (hpost : T.Stable post)
    (hwork : ∀ b ∈ xs, T.Does pre (work b) fun _ _ => True) (ha : a ∈ xs)
    (hone : T.Does pre (work a) fun _ => post) : T.Does pre (xs.forM work) fun _ => post := by
  induction xs with
  | nil => cases ha
  | cons b xs ih =>
    have hrest : ∀ c ∈ xs, T.Does pre (work c) fun _ _ => True :=
      fun c hc => hwork c (mem_cons_of_mem _ hc)
    rcases mem_cons.mp ha with rfl | ha
    · refine hone.seq hpre fun _ => ?_
      refine ((does_forM_of_stable hpre hrest).frame hpost).imp ?_ fun _ _ _ h => h.2
      exact fun _ _ h => ⟨h.2, h.1⟩
    · exact Does.after hpre (hwork b mem_cons_self) fun _ => ih hrest ha

lemma does_mapM {work : α → ExceptT Fault (StateM σ) β} {post : α → β → σ → Prop}
    (hpre : T.Stable pre) (hpost : ∀ a b, T.Stable (post a b))
    (hwork : ∀ a ∈ xs, T.Does pre (work a) (post a)) :
    T.Does pre (xs.mapM work) fun bs s => List.Forall₂ (fun a b => post a b s) xs bs := by
  induction xs with
  | nil => exact does_pure fun _ _ _ => List.Forall₂.nil
  | cons a xs ih =>
    rw [mapM_cons]
    refine (hwork a mem_cons_self).seq hpre fun b => ?_
    have hrest := ih fun c hc => hwork c (mem_cons_of_mem _ hc)
    refine ((hrest.frame (hpost a b)).imp (fun _ _ h => ⟨h.2, h.1⟩) fun _ _ _ h => h).bind fun bs => ?_
    exact does_pure fun _ _ h => List.Forall₂.cons h.2 h.1

lemma does_filterMapM {work : α → ExceptT Fault (StateM σ) (Option β)} {post : β → σ → Prop}
    (hpre : T.Stable pre) (hpost : ∀ b, T.Stable (post b))
    (hwork : ∀ a ∈ xs, T.Does pre (work a) fun r s => ∀ b, r = some b → post b s) :
    T.Does pre (xs.filterMapM work) fun bs s => ∀ b ∈ bs, post b s := by
  induction xs with
  | nil => exact does_pure fun _ _ _ b hb => absurd hb not_mem_nil
  | cons a xs ih =>
    rw [filterMapM_cons]
    have hrest := ih fun c hc => hwork c (mem_cons_of_mem _ hc)
    refine (hwork a mem_cons_self).seq hpre fun r => ?_
    cases r with
    | none => exact hrest.imp (fun _ _ h => h.2) fun _ _ _ h => h
    | some b =>
      refine hrest.carry (hpost b) (fun _ _ h => ⟨h.2, h.1 b rfl⟩) fun bs => ?_
      refine does_pure fun s _ h c hc => ?_
      rcases mem_cons.mp hc with rfl | hc
      · exact h.2
      · exact h.1 c hc

lemma does_flatMapM {work : α → ExceptT Fault (StateM σ) (List β)}
    (hwork : ∀ a, T.Does (fun _ => True) (work a) fun _ _ => True) (xs : List α) :
    T.Does (fun _ => True) (xs.flatMapM work) fun _ _ => True := by
  have hloop : ∀ ys, T.Does (fun _ => True) (List.flatMapM.loop work xs ys) fun _ _ => True := by
    induction xs with
    | nil => exact fun ys => does_pure fun _ _ _ => trivial
    | cons a xs ih =>
      intro ys
      rw [List.flatMapM.loop]
      exact (hwork a).bind fun bs => ih _
  exact hloop []

lemma does_foldlM {γ : Type} {step : γ → α → ExceptT Fault (StateM σ) γ} (inv : List α → γ → Prop)
    (hstep : ∀ done c, ∀ a ∈ xs, inv done c →
      T.Does (fun _ => True) (step c a) fun c' _ => inv (done ++ [a]) c') {done : List α} {c : γ}
    (hc : inv done c) :
    T.Does (fun _ => True) (xs.foldlM step c) fun c' _ => inv (done ++ xs) c' := by
  induction xs generalizing done c with
  | nil =>
    rw [append_nil]
    exact does_pure fun _ _ _ => hc
  | cons a xs ih =>
    rw [foldlM_cons]
    refine (hstep done c a mem_cons_self hc).bind_fact fun c' hc' => ?_
    have hrest := ih (fun done c b hb => hstep done c b (mem_cons_of_mem _ hb)) hc'
    rwa [append_assoc] at hrest

end Rules

end Docsmith
