import HolderCore.Card.FileLemmas
import HolderCore.Card.Forest

/-! # What `create` accepts and leaves -/

namespace HolderCore
open CardStore

/-- The rows of `card_tags` are stored under their own key. -/
def Db.TagsKeyed (db : Db K) : Prop :=
  ∀ (key : List String) (t : CardTag), db.cardTags[key]? = some t → key = t.key

section
variable [SortKey K] {env : Env K} {w : World K} {card : Card K} {content : String} {key : Option K}

/-- What `create` asks for. -/
structure Creatable (env : Env K) (w : World K) (card : Card K) (content : String) (key : Option K) :
    Prop where
  project : card.projectId = env.project.projectId
  parent : validateCardParent w.db card = .ok ()
  length : 4 ≤ card.cardId.length
  relPath : card.relPath = "" ∨ card.relPath = livePath card.cardId
  row : w.db.cards[card.cardId]? = none
  file : w.repo.work[livePath card.cardId]? = none
  encode : CanEncode env
  path : relPathFree w.db (newCard w.db card key) = true
  tags : (env.extractTags content).Nodup

/-- The text of a new card's file. -/
def createdPlain (env : Env K) (db : Db K) (card : Card K) (content : String) (key : Option K) : Bytes :=
  renderCardFrontMatter env.yaml (newCard db card key)
    (LinkRepo.listOutgoing db card.projectId card.cardId) [] ++ content.toList

/-- What `create` leaves. -/
structure Created (env : Env K) (card : Card K) (content : String) (key : Option K) (w w' : World K) :
    Prop where
  repo : ∃ bytes, Encoded env (createdPlain env w.db card content key) bytes ∧
    w'.repo = Repo.commit { w.repo with
      work := w.repo.work.insert (livePath card.cardId) bytes
      index := some (w.repo.staged.insert (livePath card.cardId) bytes) } ("Add card " ++ card.title)
  journal : w'.journal = w.journal
  cards : w'.db.cards = w.db.cards.insert card.cardId (newCard w.db card key)
  links : w'.db.cardLinks = w.db.cardLinks
  milestones : w'.db.milestones = w.db.milestones
  tags : ∀ (k : List String) (t : CardTag), w'.db.cardTags[k]? = some t ↔
    (∃ tag ∈ env.extractTags content,
      t = ⟨card.projectId, card.cardId, tag, card.createdAt⟩ ∧ k = t.key) ∨
    w.db.cardTags[k]? = some t ∧ ¬(t.projectId = card.projectId ∧ t.cardId = card.cardId)

/-- What `create` leaves when it throws: nothing, or a card whose tags could not all be stored. -/
def CreateFailed (env : Env K) (card : Card K) (content : String) (key : Option K) (w w' : World K) :
    Prop :=
  w'.journal = w.journal ∧ w'.repo.refs = w.repo.refs ∧ w'.repo.commits = w.repo.commits ∧
    w'.db.cardLinks = w.db.cardLinks ∧ w'.db.milestones = w.db.milestones ∧
    (w'.db = w.db ∧ w'.repo.work = w.repo.work ∨
      ¬(env.extractTags content).Nodup ∧
        (∃ bytes, w'.repo.work = w.repo.work.insert (livePath card.cardId) bytes) ∧
        w'.db.cards = w.db.cards.insert card.cardId (newCard w.db card key) ∧
        ∀ (k : List String) (t : CardTag), w'.db.cardTags[k]? = some t →
          w.db.cardTags[k]? = some t ∨ t.cardId = card.cardId)

omit [SortKey K] in
theorem validateCardParent_exists {db : Db K} (hk : db.Keyed) (h : validateCardParent db card = .ok ())
    {p : String} (hp : card.parentCardId = some p) :
    ∃ c, db.cards[p]? = some c ∧ p ≠ card.cardId := by
  have hr := validateCardParent_ok h
  rw [hp] at hr
  obtain ⟨q, hq⟩ := (reachableCardParent_rooted hk hr).node
  obtain ⟨hne, hup⟩ := avoiding_eq_some.mp hq
  obtain ⟨c, hc, -⟩ := liveUp_eq_some.mp hup
  exact ⟨c, hc, by simpa using hne⟩

/-- `create` succeeds on exactly what it asks for. -/
theorem createLocked_ends (hj : w.journal = none) (hk : w.db.Keyed) (ht : w.db.TagsKeyed) :
    Ends (createLocked env card content key) w
      (fun _ w' => Creatable env w card content key ∧ Created env card content key w w')
      fun _ w' => ¬ Creatable env w card content key ∧ CreateFailed env card content key w w' := by
  have hsame : CreateFailed env card content key w w := ⟨rfl, rfl, rfl, rfl, rfl, .inl ⟨rfl, rfl⟩⟩
  unfold createLocked
  refine (requireProject_iff_ends hj card.projectId).bind ?_ ?_
  · rintro - w1 ⟨rfl, hproj⟩
    simp only [Ends.bind_iff, Ends.get_iff, Ends.fromExcept_iff, Ends.ite_iff, Ends.throw_iff,
      Std.ExtTreeMap.contains_iff_mem]
    refine ⟨fun _ hparent => ⟨fun expected hpath => ?_, fun e he => ⟨fun hc => ?_, hsame⟩⟩,
      fun e he => ⟨fun hc => ?_, hsame⟩⟩
    · obtain ⟨hlen, rfl⟩ := cardRelPath_ok_iff.mp hpath
      refine ⟨fun hrel => ⟨fun hc => ?_, hsame⟩, fun hrel => ⟨fun hrow => ⟨fun hc => ?_, hsame⟩,
        fun hrow => ⟨fun hfile => ⟨fun hc => ?_, hsame⟩, fun hfile => ?_⟩⟩⟩
      · rcases hc.relPath with h | h <;> simp [h] at hrel
      · exact Map.not_mem_iff.mpr hc.row hrow
      · exact Map.not_mem_iff.mpr hc.file hfile
      · have hrow : w1.db.cards[card.cardId]? = none := Map.not_mem_iff.mp hrow
        have hfile : w1.repo.work[livePath card.cardId]? = none := Map.not_mem_iff.mp hfile
        have hrel : card.relPath = "" ∨ card.relPath = livePath card.cardId := by
          simp only [Bool.not_eq_true', String.isEmpty_eq_false_iff, ne_eq, not_and_or, not_not] at hrel
          exact hrel
        have hpath : (newCard w1.db card key).relPath = livePath card.cardId := rfl
        refine (writeCardFile_ends _ _ _ _).mono ?_ ?_
        · rintro - w2 ⟨hcan, bytes, ivs, henc, rfl⟩
          rw [stageCardFile_ends henc (by simp [Repo.writeFile])]
          simp only [hpath, Ends.tryCatch_iff, Ends.onDb_iff]
          refine (CardRepo.create_ends _ _).mono ?_ ?_
          · rintro - db ⟨-, hfree, -, rfl⟩
            have hrows : ∃ c, (w1.db.cards.insert card.cardId (newCard w1.db card key))[card.cardId]? =
                some c := ⟨newCard w1.db card key, by simp⟩
            unfold ftsUpsertCard
            simp only [Ends.ite_iff, Ends.onDb_iff, FtsIndexer.upsertCard, Ends.modify_iff,
              Ends.pure_iff]
            refine ⟨fun _ => ?_, fun _ => ?_⟩ <;>
            · refine (TagRepo.setTagsForCard_ends _ _ _ _ _ ?_ ?_).mono ?_ ?_
              · exact ht
              · exact hrows
              · rintro - db' ⟨hnodup, hdb, htags⟩
                simp only [CardStore.commit, Ends.onRepo_iff, Except.ok.injEq, forall_eq',
                  reduceCtorEq, false_imp_iff, implies_true, and_true]
                refine ⟨⟨hproj, hparent, hlen, hrel, hrow, hfile, hcan, hfree, hnodup⟩,
                  ⟨bytes, henc, rfl⟩, rfl, ?_, ?_, ?_, htags⟩
                · rw [hdb]; rfl
                · rw [hdb]
                · rw [hdb]
              · rintro - db' ⟨⟨rows, rfl, hrows'⟩, hdup⟩
                exact ⟨fun hc => hdup hc.tags, rfl, rfl, rfl, rfl, rfl,
                  .inr ⟨hdup, ⟨bytes, rfl⟩, rfl, hrows'⟩⟩
          · rintro e db ⟨rfl, hbad⟩
            simp only [Ends.bind_iff, Ends.onRepo_iff, Except.ok.injEq, forall_eq', Ends.throw_iff,
              reduceCtorEq, false_imp_iff, implies_true, and_true]
            refine ⟨fun hc => hbad ⟨hrow, hc.path, ?_⟩, rfl, rfl, rfl, rfl, rfl, .inl ⟨rfl, ?_⟩⟩
            · unfold parentExists
              split
              · next p hp =>
                obtain ⟨c, hc, -⟩ := validateCardParent_exists hk hparent hp
                simp [Std.ExtTreeMap.contains_iff_mem.mpr (Map.mem_iff.mpr ⟨c, hc⟩)]
              · rfl
            · change (w1.repo.work.insert (livePath card.cardId) bytes).erase (livePath card.cardId) = _
              refine Map.ext fun path => ?_
              rw [Map.get_erase, Map.get_insert]
              split
              · next he => rw [← he, hfile]
              · rfl
        · rintro - w2 ⟨hcan, rfl⟩
          exact ⟨fun hc => hcan hc.encode, hsame⟩
    · rw [cardRelPath_ok_iff.mpr ⟨hc.length, rfl⟩] at he
      cases he
    · rw [hc.parent] at he
      cases he
  · rintro - w1 ⟨rfl, hproj⟩
    exact ⟨fun hc => hproj hc.project, hsame⟩

end

end HolderCore
