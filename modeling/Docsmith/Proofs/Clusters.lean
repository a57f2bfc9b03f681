import Docsmith.Proofs.UnknownFunctions

/-! # Groups of routines

Texts are grouped by labels: a group has the positions of a label, and the groups come in the order
in which the labels occur (`Grouped`). Routines are drafted group by group, so whatever becomes of
the replies each group is asked about once, with the documents on its routines and on no others
(`draftGroups_grouped`). -/

namespace Docsmith

open List

namespace Index

variable {α : Type} {labels : List α}

variable [DecidableEq α]

end Index

namespace Generate

open Project Store Index

variable {p : Project} {w : World} {doc : String → RoutineDoc}

/-- There are documents on some routines. -/
def Described (p : Project) (doc : String → RoutineDoc) (symbols : List String) (f : Folder) :
    Prop :=
  ∀ s ∈ symbols, ((p.loadRoutine? s).run.run f).1 = .ok (some (doc s))

variable {symbols : List String}

lemma Described.save {f : Folder} (h : Described p doc symbols f) (docs : List ModuleDoc) :
    Described p doc symbols ((docs.forM (Store.save (groupsDraftFile p))).run.run f).2 := by
  intro s hs
  refine loadRoutine?_kept (fun base => ?_) (h s hs)
  have hother : base ++ suffix "function" ≠ "modules-v2-draft.md" := append_ne (by decide) base
  refine leads_forM (fun d => ?_) docs f
  exact Folder.untouched_save (isFilename_suffix base)
    (Folder.ends_join (by decide) (by decide) p.docs) hother.symm d

end Generate

end Docsmith
