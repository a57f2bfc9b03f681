import Docsmith.Project
import Docsmith.Proofs.Shelf
import Docsmith.Proofs.Tables

/-! # The documents of a project

Documents on routines and records go to a file for each source file and kind, those on modules to
one file and those on the repository to another. `kept_of_saveAll`: loading gives back what was
saved, in order, and a call fails only if the file or the text cannot be written. -/

namespace Docsmith

open Folder Store Document List

namespace Project

/-! ## The files of a project -/

/-- No part of the path before the name is empty, a stay, a step up or the name of a file for
documents. -/
def IsSource (source : String) : Prop :=
  ∀ q ∈ (Path.parts source).dropLast, IsName q ∧ Text.endsWith ".md" q = false

instance (source : String) : Decidable (IsSource source) :=
  inferInstanceAs
    (Decidable (∀ q ∈ (Path.parts source).dropLast, IsName q ∧ Text.endsWith ".md" q = false))

def fileName (kind source : String) : String :=
  source ++ "." ++ kind ++ ".md"

lemma endsWith_append (s t : String) : Text.endsWith t (s ++ t) = true := by
  rw [Text.endsWith, String.toList_append, reverse_append, isPrefixOf_iff_prefix]
  exact prefix_append _ _

lemma isFile_fileName {kind source : String} (hkind : '/' ∉ kind.toList)
    (hsource : IsSource source) : IsFile (fileName kind source) := by
  obtain ⟨q, hq⟩ : ∃ q, Path.parts source = (Path.parts source).dropLast ++ [q] :=
    ⟨_, (dropLast_append_getLast (parts_ne_nil source)).symm⟩
  have hparts : Path.parts (fileName kind source)
      = (Path.parts source).dropLast ++ [q ++ ("." ++ kind ++ ".md")] := by
    have hpieces : Path.pieces source.toList
        = (Path.parts source).dropLast.map String.toList ++ [q.toList] := by
      have hmap := congrArg (List.map String.toList) hq
      rw [Path.parts_eq] at hmap
      rw [Path.parts_eq]
      simpa using hmap
    have hchars : (fileName kind source).toList = source.toList ++ ("." ++ kind ++ ".md").toList := by
      simp [fileName]
    rw [Path.parts_eq, hchars, Path.pieces_append_of_notMem hpieces (by simp [hkind])]
    simp [String.append_assoc]
  constructor
  · rw [hparts, dropLast_concat]
    exact hsource
  · rw [hparts]
    intro n hn
    rw [getLast?_concat, Option.mem_some_iff] at hn
    subst hn
    have hend : q ++ ("." ++ kind ++ ".md") = q ++ ("." ++ kind) ++ ".md" := by
      simp [String.append_assoc]
    have hlen : 2 < (q ++ ("." ++ kind ++ ".md")).length := by
      have hthree : ".md".length = 3 := by decide
      simp only [String.length_append]
      omega
    refine ⟨⟨fun h => ?_, fun h => ?_, fun h => ?_⟩, by rw [hend, endsWith_append]⟩
    · rw [h] at hlen
      exact absurd hlen (by decide)
    · rw [h] at hlen
      exact absurd hlen (by decide)
    · rw [h] at hlen
      exact absurd hlen (by decide)
  · intro h
    have hdots := congrArg (fun s : String => s.toList.count '.') h
    have hone : notes.toList.count '.' = 1 := by decide
    have htwo : 2 ≤ (fileName kind source).toList.count '.' := by
      simp [fileName]
      omega
    omega

lemma isFile_of_name {n : String} (hslash : '/' ∉ n.toList) (hname : IsName n)
    (hend : Text.endsWith ".md" n = true) (hother : n ≠ notes) : IsFile n := by
  have hparts : Path.parts n = [n] := by
    rw [Path.parts_eq, Path.pieces_of_notMem hslash]
    simp
  refine ⟨?_, ?_, hother⟩
  · simp [hparts]
  · simp [hparts, hname, hend]

inductive Slot where
  | routines (source : String)
  | records (source : String)
  | modules
  | repository
deriving DecidableEq

variable {σ : Slot}

namespace Slot

def name : Slot → String
  | .routines source => fileName (Document.kind RoutineDoc) source
  | .records source => fileName (Document.kind RecordDoc) source
  | .modules => "modules.md"
  | .repository => "repo.md"

def Fine : Slot → Prop
  | .routines source | .records source => IsSource source
  | .modules | .repository => True

lemma isFile (h : σ.Fine) : IsFile σ.name := by
  cases σ with
  | routines source | records source => exact isFile_fileName (by decide) h
  | modules | repository => exact isFile_of_name (by decide) (by decide) (by decide) (by decide)

lemma reverse_fileName (kind source : String) : (fileName kind source).toList.reverse
    = 'd' :: 'm' :: '.' :: (kind.toList.reverse ++ '.' :: source.toList.reverse) := by
  simp [fileName]

lemma name_injective {σ τ : Slot} (h : σ.name = τ.name) : σ = τ := by
  have hchars := congrArg (fun s : String => s.toList.reverse) h
  cases σ <;> cases τ <;> simp only [name, reverse_fileName] at hchars <;>
    simp_all [Document.kind, String.toList_inj]

end Slot

def path (p : Project) (σ : Slot) : String :=
  Path.join p.docs σ.name

/-! ## Calls that save -/

inductive Saving where
  | routine (symbol : String) (d : RoutineDoc)
  | record (symbol : String) (d : RecordDoc)
  | module (d : ModuleDoc)
  | repository (d : RepositoryDoc)

namespace Saving

def Clean : Saving → Prop
  | .routine _ d => d.Clean
  | .record _ d => d.Clean
  | .module d => d.Clean
  | .repository d => d.Clean

instance : (c : Saving) → Decidable c.Clean
  | .routine _ d => inferInstanceAs (Decidable d.Clean)
  | .record _ d => inferInstanceAs (Decidable d.Clean)
  | .module d => inferInstanceAs (Decidable d.Clean)
  | .repository d => inferInstanceAs (Decidable d.Clean)

def text : Saving → Except Fault String
  | .routine _ d => Document.markdown d
  | .record _ d => Document.markdown d
  | .module d => Document.markdown d
  | .repository d => Document.markdown d

def saveTo (file : String) : Saving → Files Unit
  | .routine _ d => Store.save file d
  | .record _ d => Store.save file d
  | .module d => Store.save file d
  | .repository d => Store.save file d

def slot (p : Project) : Saving → Except Fault Slot
  | .routine symbol _ => (p.routines.get symbol).map fun r => .routines r.file
  | .record symbol _ => (p.records.get symbol).map fun r => .records r.file
  | .module _ => .ok .modules
  | .repository _ => .ok .repository

end Saving

def save (p : Project) : Saving → Files Unit
  | .routine symbol d => p.saveRoutine symbol d
  | .record symbol d => p.saveRecord symbol d
  | .module d => p.saveModule d
  | .repository d => p.saveRepository d

/-- Carries out calls in order, whether or not they fail. -/
def saveAll (p : Project) : List Saving → Folder → List (Saving × Except Fault Unit) × Folder
  | [], f => ([], f)
  | c :: cs, f =>
    let (r, f) := (p.save c).run.run f
    let (rest, f) := p.saveAll cs f
    ((c, r) :: rest, f)

/-! ## What one call does -/

def added (p : Project) (σ : Slot) (c : Saving) (r : Except Fault Unit) : String :=
  match c.slot p, c.text, r with
  | .ok τ, .ok text, .ok _ => if τ = σ then text ++ "\n" else ""
  | _, _, _ => ""

variable {p : Project} {c : Saving}

lemma added_ok (hslot : c.slot p = .ok σ) {text : String} (htext : c.text = .ok text) (u : Unit) :
    p.added σ c (.ok u) = text ++ "\n" := by
  simp only [added, hslot, htext, if_true]

lemma added_error (p : Project) (σ : Slot) (c : Saving) (e : Fault) :
    p.added σ c (.error e) = "" := by
  simp [added]

lemma added_of_ne (h : c.slot p ≠ .ok σ) (r : Except Fault Unit) : p.added σ c r = "" := by
  unfold added
  split
  · rename_i τ text u hτ _
    rw [if_neg (by rintro rfl; exact h hτ)]
  · rfl

def written (p : Project) (σ : Slot) : List (Saving × Except Fault Unit) → String
  | [] => ""
  | o :: os => p.added σ o.1 o.2 ++ p.written σ os

structure Sourced (p : Project) : Prop where
  routines : ∀ s r, p.routines.get s = .ok r → IsSource r.file
  records : ∀ s r, p.records.get s = .ok r → IsSource r.file

lemma known_of_get {δ : Type} {c : Catalog δ} {s : String} {d : δ} (h : c.get s = .ok d) :
    ∃ k ∈ c.known, k.2 = d := by
  rw [Catalog.get] at h
  cases hget : Assoc.get? s c.known with
  | none =>
    rw [hget] at h
    exact nomatch h
  | some d' =>
    rw [hget, Except.ok.injEq] at h
    subst h
    exact ⟨_, Assoc.mem_of_get? hget, rfl⟩

lemma sourced_of_known (hroutines : ∀ k ∈ p.routines.known, IsSource k.2.file)
    (hrecords : ∀ k ∈ p.records.known, IsSource k.2.file) : p.Sourced where
  routines s r hr := by
    obtain ⟨k, hk, rfl⟩ := known_of_get hr
    exact hroutines k hk
  records s r hr := by
    obtain ⟨k, hk, rfl⟩ := known_of_get hr
    exact hrecords k hk

/-- The file for the document is known, it can be made, and the text can be written. -/
def Storable (p : Project) (c : Saving) : Prop :=
  ∃ σ text, c.slot p = .ok σ ∧ c.text = .ok text ∧ Fits p.docs σ.name ∧
    checkText (text ++ "\n") = .ok ()

lemma run_save (p : Project) (c : Saving) (f : Folder) :
    (p.save c).run.run f = match c.slot p with
      | .ok σ => (c.saveTo (p.path σ)).run.run f
      | .error e => (.error e, f) := by
  cases c with
  | routine symbol d =>
    rw [save, saveRoutine, run_bind, routineFile, Saving.slot]
    cases p.routines.get symbol with
    | error e | ok r => rfl
  | record symbol d =>
    rw [save, saveRecord, run_bind, recordFile, Saving.slot]
    cases p.records.get symbol with
    | error e | ok r => rfl
  | module d | repository d => rfl

lemma fine_of_slot (hp : p.Sourced) (h : c.slot p = .ok σ) : σ.Fine := by
  cases c with
  | routine symbol d =>
    obtain ⟨r, hr, rfl⟩ := map_ok_iff.mp h
    exact hp.routines symbol r hr
  | record symbol d =>
    obtain ⟨r, hr, rfl⟩ := map_ok_iff.mp h
    exact hp.records symbol r hr
  | module d | repository d =>
    obtain rfl := Except.ok.inj h
    exact trivial

lemma Saving.Clean.exists_text (h : c.Clean) : ∃ text, c.text = .ok text := by
  cases c with
  | routine symbol d => exact ⟨_, (RoutineDoc.Clean.legible h).choose_spec.written⟩
  | record symbol d => exact ⟨_, (RecordDoc.Clean.legible h).choose_spec.written⟩
  | module d => exact ⟨_, (ModuleDoc.Clean.legible h).choose_spec.written⟩
  | repository d => exact ⟨_, (RepositoryDoc.Clean.legible h).choose_spec.written⟩

variable {texts : String → Option String} {f : Folder}

lemma saveTo_run {docs x : String} (h : Keeps docs f texts) (hx : IsFile x) {text : String}
    (hc : c.text = .ok text) :
    ∃ r f' t, (c.saveTo (Path.join docs x)).run.run f = (r, f') ∧
      Keeps docs f' (Function.update texts x t) ∧
      (r = .ok () → t.getD "" = (texts x).getD "" ++ (text ++ "\n")) ∧
      (r ≠ .ok () → t.getD "" = (texts x).getD "") ∧
      (Fits docs x → checkText (text ++ "\n") = .ok () → r = .ok ()) := by
  cases c with
  | routine symbol d | record symbol d | module d | repository d => exact save_run h hx hc

lemma save_step (h : Keeps p.docs f texts) (hc : c.Clean) (hfine : ∀ σ, c.slot p = .ok σ → σ.Fine) :
    ∃ r f' texts', (p.save c).run.run f = (r, f') ∧ Keeps p.docs f' texts' ∧
      (∀ σ : Slot, (texts' σ.name).getD "" = (texts σ.name).getD "" ++ p.added σ c r) ∧
      (p.Storable c → r = .ok ()) := by
  obtain ⟨text, htext⟩ := hc.exists_text
  rw [run_save]
  cases hslot : c.slot p with
  | error e =>
    refine ⟨_, f, texts, rfl, h, fun σ => ?_, ?_⟩
    · rw [added_error, String.append_empty]
    · rintro ⟨σ, _, hσ, -⟩
      rw [hslot] at hσ
      exact nomatch hσ
  | ok τ =>
    obtain ⟨r, f', t, hrun, hkeeps, hok, herror, hfits⟩ :=
      saveTo_run h (Slot.isFile (hfine τ hslot)) htext
    refine ⟨r, f', _, hrun, hkeeps, fun σ => ?_, ?_⟩
    · by_cases hσ : σ = τ
      · subst hσ
        rw [Function.update_self]
        cases r with
        | error e => rw [herror (fun hr => nomatch hr), added_error, String.append_empty]
        | ok u => rw [hok rfl, added_ok hslot htext]
      · have hne : c.slot p ≠ .ok σ := by
          rw [hslot]
          exact fun heq => hσ (Except.ok.inj heq).symm
        rw [Function.update_of_ne fun hname => hσ (Slot.name_injective hname), added_of_ne hne,
          String.append_empty]
    · rintro ⟨σ, s, hσ, hs, hfit, hcheck⟩
      rw [hslot, Except.ok.injEq] at hσ
      rw [htext, Except.ok.injEq] at hs
      subst hσ hs
      exact hfits hfit hcheck

/-! ## What a sequence of calls does -/

lemma saveAll_run (hp : p.Sourced) {calls : List Saving} (hclean : ∀ c ∈ calls, c.Clean)
    (h : Keeps p.docs f texts) :
    ∃ os f' texts', p.saveAll calls f = (os, f') ∧ os.map Prod.fst = calls ∧
      Keeps p.docs f' texts' ∧
      (∀ σ : Slot, (texts' σ.name).getD "" = (texts σ.name).getD "" ++ p.written σ os) ∧
      (∀ o ∈ os, p.Storable o.1 → o.2 = .ok ()) := by
  induction calls generalizing f texts with
  | nil => exact ⟨[], f, texts, rfl, rfl, h, fun σ => by rw [written, String.append_empty], by simp⟩
  | cons c cs ih =>
    rw [forall_mem_cons] at hclean
    obtain ⟨r, f₁, texts₁, hrun, hkeeps, hadded, hok⟩ := save_step h hclean.1 fun σ => fine_of_slot hp
    obtain ⟨os, f', texts', hrest, hcalls, hkeeps', hwritten, hoks⟩ := ih hclean.2 hkeeps
    refine ⟨(c, r) :: os, f', texts', ?_, ?_, hkeeps', fun σ => ?_, ?_⟩
    · rw [saveAll, hrun]
      simp only [hrest]
    · rw [map_cons, hcalls]
    · rw [hwritten, hadded, written, String.append_assoc]
    · exact forall_mem_cons.mpr ⟨hok, hoks⟩

/-! ## What is loaded -/

def succeeded (os : List (Saving × Except Fault Unit)) : List Saving :=
  (os.filter fun o => o.2.isOk).map Prod.fst

namespace Saving

def routineOf? (p : Project) (source : String) : Saving → Option RoutineDoc
  | .routine symbol d => if (p.routines.get symbol).toOption.any (·.file = source) then d else none
  | _ => none

def recordOf? (p : Project) (source : String) : Saving → Option RecordDoc
  | .record symbol d => if (p.records.get symbol).toOption.any (·.file = source) then d else none
  | _ => none

def module? : Saving → Option ModuleDoc
  | .module d => some d
  | _ => none

def repository? : Saving → Option RepositoryDoc
  | .repository d => some d
  | _ => none

end Saving

structure Picks {δ : Type} [Document δ] (p : Project) (σ : Slot) (pick : Saving → Option δ) :
    Prop where
  inside : ∀ c : Saving, c.Clean → c.slot p = .ok σ →
    ∃ d t, pick c = some d ∧ Document.Legible d t ∧ c.text = Document.markdown d
  outside : ∀ c : Saving, c.slot p ≠ .ok σ → pick c = none

lemma holds_written {δ : Type} [Document δ] {pick : Saving → Option δ} (hpick : Picks p σ pick)
    {os : List (Saving × Except Fault Unit)} (hclean : ∀ o ∈ os, o.1.Clean) :
    Document.Holds (p.written σ os) ((succeeded os).filterMap pick) := by
  induction os with
  | nil => exact Document.holds_nil
  | cons o os ih =>
    rw [forall_mem_cons] at hclean
    obtain ⟨c, r⟩ := o
    have hrest := ih hclean.2
    cases r with
    | error e =>
      rw [written, added_error]
      exact hrest
    | ok u =>
      have hcons : succeeded ((c, .ok u) :: os) = c :: succeeded os := rfl
      by_cases hslot : c.slot p = .ok σ
      · obtain ⟨d, t, hd, hlegible, htext⟩ := hpick.inside c hclean.1 hslot
        rw [written, added_ok hslot (htext.trans hlegible.written), hcons,
          filterMap_cons_some hd]
        exact (Document.holds_single hlegible).append hrest
      · rw [written, added_of_ne hslot, hcons,
          filterMap_cons_none (hpick.outside c hslot)]
        exact hrest

lemma any_toOption {α : Type} {x : Except Fault α} {p : α → Bool} :
    x.toOption.any p = true ↔ ∃ a, x = .ok a ∧ p a = true := by
  cases x with
  | error e | ok a => simp [Except.toOption]

lemma picks_routineOf? (p : Project) (source : String) :
    Picks p (.routines source) (Saving.routineOf? p source) := by
  constructor
  · intro c hc hslot
    cases c with
    | routine symbol d =>
      obtain ⟨t, ht⟩ := RoutineDoc.Clean.legible hc
      obtain ⟨r, hr, hfile⟩ := map_ok_iff.mp hslot
      refine ⟨d, t, if_pos (any_toOption.mpr ⟨r, hr, ?_⟩), ht, rfl⟩
      simpa using hfile
    | record symbol d | module d | repository d => simp [Saving.slot, map_ok_iff] at hslot
  · intro c hslot
    cases c with
    | routine symbol d =>
      refine if_neg fun hany => hslot (map_ok_iff.mpr ?_)
      obtain ⟨r, hr, hfile⟩ := any_toOption.mp hany
      exact ⟨r, hr, by simpa using hfile⟩
    | record symbol d | module d | repository d => rfl

lemma picks_recordOf? (p : Project) (source : String) :
    Picks p (.records source) (Saving.recordOf? p source) := by
  constructor
  · intro c hc hslot
    cases c with
    | record symbol d =>
      obtain ⟨t, ht⟩ := RecordDoc.Clean.legible hc
      obtain ⟨r, hr, hfile⟩ := map_ok_iff.mp hslot
      refine ⟨d, t, if_pos (any_toOption.mpr ⟨r, hr, ?_⟩), ht, rfl⟩
      simpa using hfile
    | routine symbol d | module d | repository d => simp [Saving.slot, map_ok_iff] at hslot
  · intro c hslot
    cases c with
    | record symbol d =>
      refine if_neg fun hany => hslot (map_ok_iff.mpr ?_)
      obtain ⟨r, hr, hfile⟩ := any_toOption.mp hany
      exact ⟨r, hr, by simpa using hfile⟩
    | routine symbol d | module d | repository d => rfl

lemma picks_module? (p : Project) : Picks p .modules Saving.module? := by
  constructor
  · intro c hc hslot
    cases c with
    | module d =>
      obtain ⟨t, ht⟩ := ModuleDoc.Clean.legible hc
      exact ⟨d, t, rfl, ht, rfl⟩
    | routine symbol d | record symbol d | repository d =>
      simp [Saving.slot, map_ok_iff] at hslot
  · intro c hslot
    cases c with
    | module d => exact absurd rfl hslot
    | repository d | routine symbol d | record symbol d => rfl

lemma picks_repository? (p : Project) : Picks p .repository Saving.repository? := by
  constructor
  · intro c hc hslot
    cases c with
    | repository d =>
      obtain ⟨t, ht⟩ := RepositoryDoc.Clean.legible hc
      exact ⟨d, t, rfl, ht, rfl⟩
    | routine symbol d | record symbol d | module d => simp [Saving.slot, map_ok_iff] at hslot
  · intro c hslot
    cases c with
    | repository d => exact absurd rfl hslot
    | module d | routine symbol d | record symbol d => rfl

lemma run_load? {δ : Type} [Document δ] {file : Except Fault String} {path symbol : String}
    (hfile : file = .ok path) {ds : List δ} (h : (loadAll δ path).run.run f = (.ok ds, f)) :
    (do load? δ symbol (← Files.ask fun _ => file) : Files (Option δ)).run.run f
      = (.ok (ds.find? fun d => Document.name d == symbol), f) := by
  rw [run_bind, Files.run_ask, hfile]
  simp only [load?, run_bind, h]
  rfl

lemma run_loadRoutine? {symbol : String} {r : Routine} (hr : p.routines.get symbol = .ok r)
    {ds : List RoutineDoc}
    (h : (loadAll RoutineDoc (p.path (.routines r.file))).run.run f = (.ok ds, f)) :
    (p.loadRoutine? symbol).run.run f = (.ok (ds.find? fun d => d.name == symbol), f) :=
  run_load? (by rw [routineFile, hr]; rfl) h

lemma run_loadRecord? {symbol : String} {r : Record} (hr : p.records.get symbol = .ok r)
    {ds : List RecordDoc}
    (h : (loadAll RecordDoc (p.path (.records r.file))).run.run f = (.ok ds, f)) :
    (p.loadRecord? symbol).run.run f = (.ok (ds.find? fun d => d.name == symbol), f) :=
  run_load? (by rw [recordFile, hr]; rfl) h

/-- After any calls that save documents which can be read again, into an empty folder, each file
holds the documents that were saved into it, in order. Loading gives all modules, the first document
on the repository and the first one with the name of a symbol among those for its source file, and a
call fails only if the document cannot be stored. -/
theorem kept_of_saveAll {p : Project} (hp : p.Sourced) {f : Folder}
    (hempty : f.lookup? p.docs = some (.folder .empty)) {calls : List Saving}
    (hclean : ∀ c ∈ calls, c.Clean) :
    ∃ os f', p.saveAll calls f = (os, f') ∧ os.map Prod.fst = calls ∧
      (∀ o ∈ os, p.Storable o.1 → o.2 = .ok ()) ∧
      p.loadModules.run.run f' = (.ok ((succeeded os).filterMap Saving.module?), f') ∧
      p.loadRepository?.run.run f'
        = (.ok ((succeeded os).filterMap Saving.repository?).head?, f') ∧
      (∀ s r, p.routines.get s = .ok r → (p.loadRoutine? s).run.run f'
        = (.ok (((succeeded os).filterMap (Saving.routineOf? p r.file)).find? fun d =>
            d.name == s), f')) ∧
      (∀ s r, p.records.get s = .ok r → (p.loadRecord? s).run.run f'
        = (.ok (((succeeded os).filterMap (Saving.recordOf? p r.file)).find? fun d =>
            d.name == s), f')) := by
  obtain ⟨os, f', texts, hrun, hcalls, hkeeps, hwritten, hoks⟩ :=
    saveAll_run hp hclean (keeps_empty hempty)
  have hcleaned : ∀ o ∈ os, o.1.Clean := by
    intro o ho
    exact hclean o.1 (hcalls ▸ List.mem_map_of_mem ho)
  have hloaded : ∀ {δ : Type} [Document δ] {σ : Slot} {pick : Saving → Option δ},
      Picks p σ pick → σ.Fine →
      (loadAll δ (p.path σ)).run.run f' = (.ok ((succeeded os).filterMap pick), f') := by
    intro δ _ σ pick hpick hσ
    refine loadAll_run hkeeps (Slot.isFile hσ) ?_
    rw [hwritten, Option.getD_none, String.empty_append]
    exact holds_written hpick hcleaned
  have hmodules := hloaded (picks_module? p) trivial
  have hrepository := hloaded (picks_repository? p) trivial
  refine ⟨os, f', hrun, hcalls, hoks, hmodules, ?_, ?_, ?_⟩
  · rw [loadRepository?, run_bind]
    simp only [show p.repositoryFile = p.path .repository from rfl, hrepository]
    rfl
  · intro s r hr
    exact run_loadRoutine? hr (hloaded (picks_routineOf? p r.file) (hp.routines s r hr))
  · intro s r hr
    exact run_loadRecord? hr (hloaded (picks_recordOf? p r.file) (hp.records s r hr))

def tiny : Project where
  docs := "docs"
  sources := "src"
  output := "out"
  language := none
  routines := (({} : Catalog Routine).add "f" { symbol := "f", file := "lib/a.c" }).add "g"
    { symbol := "g", file := "lib/a.c" }

def tinyCalls : List Saving :=
  [.routine "g" { name := "g", description := "Doubles.", usage := some "g 1\n\n# none" },
    .module { name := "sums", description := "", functions := some ["f", "g - twice"] },
    .routine "f" { name := "f", description := "Adds." },
    .module { name := "more", description := "- - -", functions := some ["g"], usage := some "-" },
    .routine "f" { name := "f", description := "Adds two.", code := some "f(x)" }]

lemma tinyCalls_storable : ∀ c ∈ tinyCalls, tiny.Storable c := by
  simp only [tinyCalls, forall_mem_cons]
  refine ⟨?_, ?_, ?_, ?_, ?_, by simp⟩ <;>
    exact ⟨_, _, rfl, rfl, ⟨by decide +kernel, by decide +kernel, by decide +kernel⟩,
      by decide +kernel⟩

theorem kept_of_saveAll_tiny :
    tiny.Sourced ∧ lookup? (.folder "docs" .empty .empty) tiny.docs = some (.folder .empty) ∧
    (∀ c ∈ tinyCalls, c.Clean) ∧
    ∃ f', tiny.saveAll tinyCalls (.folder "docs" .empty .empty) = (tinyCalls.map (·, .ok ()), f') ∧
      tiny.loadModules.run.run f' = (.ok
        [{ name := "sums", description := "", functions := some ["f", "g - twice"] },
          { name := "more", description := "- - -", functions := some ["g"], usage := some "-" }],
        f') ∧
      (tiny.loadRoutine? "f").run.run f'
        = (.ok (some { name := "f", description := "Adds." }), f') := by
  have hsourced : tiny.Sourced := sourced_of_known (by decide +kernel) (by decide +kernel)
  have hempty : lookup? (.folder "docs" .empty .empty) tiny.docs = some (.folder .empty) := rfl
  have hclean : ∀ c ∈ tinyCalls, c.Clean := by decide +kernel
  obtain ⟨os, f', hrun, hcalls, hoks, hmodules, -, hroutines, -⟩ :=
    kept_of_saveAll hsourced hempty hclean
  have hos : os = tinyCalls.map (·, .ok ()) := by
    rw [← hcalls, List.map_map]
    refine (List.map_id os).symm.trans (List.map_congr_left fun o ho => ?_)
    exact Prod.ext rfl (hoks o ho (tinyCalls_storable o.1 (hcalls ▸ List.mem_map_of_mem ho)))
  subst hos
  exact ⟨hsourced, hempty, hclean, f', hrun, hmodules, hroutines "f" _ rfl⟩

end Project

end Docsmith

