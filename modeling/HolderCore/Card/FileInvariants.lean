import HolderCore.Card.StoreLemmas

/-! # Invariants of what the store does to files

What the writes of encoded files, the index updates, the commits, the journalled changes and the
rebuild keep, every call of the store keeps, whether it returns or throws. -/

namespace HolderCore

/-- A path without the trash directory. -/
def outOfTrash (path : String) : String :=
  if startsWith "trash/" path.toList then String.ofList (path.toList.drop 6) else path

/-- The text of a card's file: front matter that states the card, its links and its milestones and
names the file's path, and a body. Between a rename in or out of the trash and the write after it the
path named is the one before. -/
def CardText (env : Env K) (path : String) (plain : Bytes) : Prop :=
  ∃ (card : Card K) (links : List CardLink) (milestones : List Milestone) (body : String),
    outOfTrash card.relPath = outOfTrash path ∧
      plain = renderCardFrontMatter env.yaml card links milestones ++ body.toList

/-- `P` is kept by every effect that a call has on the state. -/
structure FileInvariant [NatCast K] (env : Env K) (P : World K → Prop) : Prop where
  db : ∀ {w : World K} (db : Db K), P w → P { w with db }
  ivs : ∀ {w : World K} (ivs : Nat), P w → P { w with ivs }
  write : ∀ {w : World K} (path : String) {plain bytes : Bytes}, P w → CardText env path plain →
    Encoded env plain bytes → P { w with repo := w.repo.writeFile path bytes }
  erase : ∀ {w : World K} (path : String), P w →
    P { w with repo := { w.repo with work := w.repo.work.erase path } }
  stage : ∀ {w : World K} {path : String} {repo : Repo}, P w → w.repo.stagePath path = .ok repo →
    P { w with repo }
  unstage : ∀ {w : World K} (path : String), P w → P { w with repo := w.repo.removePath path }
  commit : ∀ {w : World K} (message : String), P w → P { w with repo := w.repo.commit message }
  change : ∀ (changes : List (CardChange K)) (message : String),
    Keeps P (applyCardChanges env changes message)
  rebuild : Keeps P (rebuildProject env)

namespace FileInvariant

section
variable [NatCast K] {env : Env K} {P : World K → Prop} (h : FileInvariant env P)
include h

theorem onDb (m : DbM K α) : Keeps P (onDb m) := fun _ hw =>
  Ends.onDb_iff.mpr (.intro (fun _ db _ => h.db db hw) fun _ db _ => h.db db hw)

omit [NatCast K] h in
theorem onRepo {f : Repo → Except Exn Repo}
    (hf : ∀ (w : World K) (repo : Repo), P w → f w.repo = .ok repo → P { w with repo }) :
    Keeps P (onRepo f) := fun w hw =>
  Ends.onRepo_iff.mpr ⟨fun repo hr => hf w repo hw hr, fun _ _ => hw⟩

theorem stagePath (path : String) : Keeps P (HolderCore.onRepo (K := K) (·.stagePath path)) :=
  FileInvariant.onRepo fun _ _ hw hr => h.stage hw hr

theorem stagePaths (paths : List String) :
    Keeps P (HolderCore.onRepo (K := K) (·.stagePaths paths)) := by
  refine FileInvariant.onRepo fun w repo hw hr => ?_
  unfold Repo.stagePaths at hr
  split at hr
  · cases hr
    exact hw
  · clear * - h hw hr
    induction paths generalizing w with
    | nil =>
      cases hr
      exact hw
    | cons path paths ih =>
      rw [List.foldlM_cons] at hr
      cases hp : w.repo.stagePath path with
      | error e => rw [hp] at hr; cases hr
      | ok r1 =>
        rw [hp] at hr
        exact ih { w with repo := r1 } (h.stage hw hp) hr

end

end FileInvariant

namespace CardStore

section
variable [SortKey K] {env : Env K} {P : World K → Prop} (h : FileInvariant env P)
include h

omit [SortKey K] h in
theorem mapM_keeps {α β : Type} {f : α → StoreM K β} (hf : ∀ a, Keeps P (f a)) (as : List α) :
    Keeps P (as.mapM f) := by
  induction as with
  | nil => exact .pure _
  | cons a as ih =>
    rw [List.mapM_cons]
    exact (hf a).bind fun _ => ih.bind fun _ => .pure _

end

end CardStore

section
open CardStore
variable [SortKey K] {env : Env K} {P : World K → Prop}

end

end HolderCore
