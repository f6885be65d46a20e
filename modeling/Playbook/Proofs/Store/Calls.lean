import Playbook.Proofs.Ledger
import Playbook.Proofs.Store.Index
import Playbook.Proofs.Validation.Soundness

/-!
# Calls of a store

A store reads a collection when it is first asked for and keeps it, so that
its answers do not depend on the order in which it is asked, and the warnings
of a collection are written once.
-/

namespace Playbook

open Work
open Value (IsKey)

/-! ## Places of prompts -/

namespace Path

theorem append_splitName {name : String} (h : (splitName name).2 ≠ "") :
    (splitName name).1 ++ (splitName name).2 = name := by
  unfold splitName at h ⊢
  dsimp only at h ⊢
  split at h
  · exact absurd rfl h
  · rename_i hsplit
    rw [if_neg hsplit]
    have hparts := name.toList.reverse.takeWhile_append_dropWhile (p := (· != '.'))
    have hpoint := List.head?_dropWhile_not (· != '.') name.toList.reverse
    cases hrest : name.toList.reverse.dropWhile (· != '.') with
    | nil => simp [hrest] at hsplit
    | cons c before =>
        rw [hrest] at hparts hpoint
        obtain rfl : c = '.' := by simpa using hpoint
        generalize name.toList.reverse.takeWhile (· != '.') = ending at hparts ⊢
        have hname : name.toList = before.reverse ++ '.' :: ending.reverse := by
          rw [← List.reverse_inj, ← hparts]
          simp
        rw [List.drop_one, List.tail_cons, ← String.ofList_append, ← hname, String.ofList_toList]

theorem below?_pathBelow (directory : Path) (names : List String) :
    (Manifests.pathBelow directory names).below? directory = some names := by
  have hprefix : directory.names.isPrefixOf (directory.names ++ names) = true :=
    List.isPrefixOf_iff_prefix.2 (List.prefix_append _ _)
  simp [below?, Manifests.pathBelow, hprefix]

theorem stem_ne_empty {stem ending : String} (hsplit : splitName (stem ++ ending) = (stem, ending))
    (h : ending ≠ "") : stem ≠ "" := by
  rintro rfl
  rw [String.empty_append] at hsplit
  unfold splitName at hsplit
  dsimp only at hsplit
  split at hsplit
  · exact h (congrArg Prod.snd hsplit).symm
  · rename_i hgiven
    have hbefore := congrArg (String.toList ∘ Prod.fst) hsplit
    simp only [Function.comp_apply, String.toList_ofList, String.toList_empty,
      List.reverse_eq_nil_iff] at hbefore
    simp [hbefore] at hgiven

end Path

theorem Text.join_concat_ne_empty {last : String} (h : last ≠ "") (parts : List String) :
    join "/" (parts ++ [last]) ≠ "" := by
  unfold join
  cases parts with
  | nil => simpa using h
  | cons part parts =>
      rw [String.intercalate_append_of_ne_nil (List.cons_ne_nil _ _) (List.cons_ne_nil _ _)]
      intro hempty
      simpa using congrArg String.toList hempty

theorem Prompt.sourcePath_eq_of_ofValue {v : Value} {place : String} {prompt : Prompt}
    (h : ofValue v place = .ok prompt) :
    prompt.sourcePath = if place.isEmpty then prompt.id else .text place := by
  unfold ofValue at h
  iterate 12 obtain ⟨_, _, h⟩ := Attempt.of_bind_ok h
  cases h
  rfl

theorem Prompt.sourcePath_of_ofValue {v : Value} {place : String} {prompt : Prompt}
    (given : place ≠ "") (h : ofValue v place = .ok prompt) : prompt.sourcePath = .text place := by
  rw [sourcePath_eq_of_ofValue h]
  simp [given]

namespace Store

variable {store : Store} {kind : Kind}

theorem promptPlace_eq {directory : Path}
    (hdirectory : store.settings.dirPath "prompts" = .ok directory)
    {dirs : List String} {stem ending : String}
    (hsplit : Path.splitName (stem ++ ending) = (stem, ending)) :
    store.promptPlace (Manifests.pathBelow directory (dirs ++ [stem ++ ending])) =
      Text.join "/" (dirs ++ [stem]) := by
  have hplace : Path.withoutSuffix ⟨.here, dirs ++ [stem ++ ending]⟩ = ⟨.here, dirs ++ [stem]⟩ := by
    simp [Path.withoutSuffix, Path.stem, Path.name, hsplit]
  rw [promptPlace, hdirectory]
  simp only [Path.below?_pathBelow, Option.getD_some, hplace]
  simp [Path.text, Path.Start.text]

/-- The names of a listed file: directories, and a name with one of the endings behind it. -/
theorem exists_ending_of_isListed {skipped names : List String}
    (h : Manifests.isListed skipped names) : ∃ dirs stem ending, names = dirs ++ [stem ++ ending] ∧
      ending ∈ Manifests.suffixes ∧ Path.splitName (stem ++ ending) = (stem, ending) := by
  obtain ⟨hsuffix, -, -⟩ := Manifests.isListed_iff.1 h
  rcases List.eq_nil_or_concat names with rfl | ⟨dirs, last, rfl⟩
  · exact absurd hsuffix (by decide)
  · rw [List.concat_eq_append, List.getLast?_concat, Option.getD_some] at hsuffix
    rw [List.concat_eq_append]
    have hgiven : (Path.splitName last).2 ≠ "" := by
      rintro hempty
      rw [hempty] at hsuffix
      exact absurd hsuffix (by decide)
    have hname := Path.append_splitName hgiven
    exact ⟨dirs, _, _, by rw [hname], hsuffix, by rw [hname]⟩

/-! ## Calls -/

deriving instance DecidableEq for Kind

/-- What a store can be asked for. -/
inductive Call where
  | items (kind : Kind)
  | get (kind : Kind) (id : Value)
  | list (kind : Kind)
  | recipePath (id : Value)
  | promptPaths
  | preload

inductive Answer where
  | items (kind : Kind) (items : Collection.Items kind.Record)
  | record (kind : Kind) (found : Option kind.Record)
  | ids (ids : List Value)
  | path (found : Option Path)
  | places (places : List (Value × Value))
  | done

def Kind.get : (kind : Kind) → Value → Work Store (Option kind.Record)
  | .rulepacks => getRulepack
  | .agents => getAgent
  | .prompts => getPrompt
  | .recipes => getRecipe

def Kind.list : Kind → Work Store (List Value)
  | .rulepacks => listRulepacks
  | .agents => listAgents
  | .prompts => listPrompts
  | .recipes => listRecipes

namespace Call

def work : Call → Work Store Answer
  | .items kind => .items kind <$> kind.items
  | .get kind id => .record kind <$> kind.get id
  | .list kind => .ids <$> kind.list
  | .recipePath id => .path <$> Store.recipePath id
  | .promptPaths => .places <$> Store.promptPaths
  | .preload => (fun _ => .done) <$> Store.preload

/-- The collections that are needed, in the order in which they are asked for. -/
def kinds : Call → List Kind
  | .items kind | .get kind _ | .list kind => [kind]
  | .recipePath _ => [.recipes]
  | .promptPaths => [.prompts]
  | .preload => [.rulepacks, .agents, .prompts, .recipes]

/-- What is answered by the files of a store. -/
def answer (store : Store) : Call → Attempt Answer
  | .items kind => (kind.reading store).2.map (.items kind)
  | .get kind id =>
      ((kind.reading store).2 >>= fun items =>
        (find? items id).map (·.map (·.2))).map (.record kind)
  | .list kind => ((kind.reading store).2 >>= Store.ids).map .ids
  | .recipePath id =>
      ((Kind.recipes.reading store).2 >>= fun items =>
        (find? items id).map (·.map (·.1))).map .path
  | .promptPaths =>
      ((Kind.prompts.reading store).2.map fun items =>
        items.map fun item => (item.1, Prompt.sourcePath item.2.2)).map .places
  | .preload => Except.map (fun _ => .done) (do
      let _ ← (Kind.rulepacks.reading store).2
      let _ ← (Kind.agents.reading store).2
      let _ ← (Kind.prompts.reading store).2
      let _ ← (Kind.recipes.reading store).2)

end Call

/-! ## What a store has read -/

def Kind.Readable (kind : Kind) (store : Store) : Prop := (kind.reading store).2.isOk

instance (kind : Kind) (store : Store) : Decidable (kind.Readable store) :=
  inferInstanceAs (Decidable (_ = true))

/-- The collections that are read when some are asked for; one that could be read is kept. -/
def readings (store : Store) (past : List Kind) : List Kind → List Kind
  | [] => []
  | kind :: asked =>
      if kind ∈ past ∧ kind.Readable store then readings store (past ++ [kind]) asked
      else kind :: readings store (past ++ [kind]) asked

theorem readings_append (past asked more : List Kind) : readings store past (asked ++ more) =
    readings store past asked ++ readings store (past ++ asked) more := by
  induction asked generalizing past with
  | nil => simp [readings]
  | cons kind asked ih =>
      rw [List.cons_append, readings, readings]
      split <;> simp [ih]

/-- A collection that can be read is read once. -/
theorem count_readings (hread : kind.Readable store) (past asked : List Kind) :
    (readings store past asked).count kind = if kind ∈ asked ∧ kind ∉ past then 1 else 0 := by
  induction asked generalizing past with
  | nil => simp [readings]
  | cons other asked ih =>
      rw [readings]
      by_cases hsame : other = kind
      · subst hsame
        by_cases hpast : other ∈ past
        · simp [hpast, hread, ih]
        · simp [hpast, ih]
      · split <;> simp [ih, hsame, Ne.symm hsame]

/-- The messages of the collections that were read. -/
def messages (store : Store) (kinds : List Kind) : Log :=
  kinds.flatMap fun kind => (kind.reading store).1

/-- The collections that a store has read are those it was asked for, as far as they can be read. -/
def collections (store : Store) : Ledger Store Kind where
  Holds past s := s.tree = store.tree ∧ s.settings = store.settings ∧
    ∀ kind : Kind, kind.held s = if kind ∈ past then (kind.reading store).2.toOption else none
  Told past asked log := log = messages store (readings store past asked)
  told_nil _ := rfl
  told_append := by
    rintro past asked more log later rfl rfl
    rw [readings_append, messages, messages, messages, List.flatMap_append]

variable {past : List Kind}

theorem reading_congr {s : Store} (htree : s.tree = store.tree)
    (hsettings : s.settings = store.settings) : kind.reading s = kind.reading store := by
  have hplace : s.promptPlace = store.promptPlace := by
    funext path
    rw [promptPlace, promptPlace, hsettings]
  have hparse : kind.parse s = kind.parse store := by
    cases kind <;> simp only [Kind.parse, hplace] <;> rfl
  rw [Kind.reading, Kind.reading, Store.read, Store.read, htree, hsettings, hparse]

theorem Kind.held_keep (kind other : Kind) (items : Collection.Items kind.Record) (s : Store) :
    other.held (kind.keep items s) =
      if h : other = kind then some (h ▸ items) else other.held s := by
  cases kind <;> cases other <;> rfl

theorem Kind.tree_keep (kind : Kind) (items : Collection.Items kind.Record) (s : Store) :
    (kind.keep items s).tree = s.tree ∧ (kind.keep items s).settings = s.settings := by
  cases kind <;> exact ⟨rfl, rfl⟩

/-- What comes of a collection that is held, or else of its reading. -/
def given {α : Type} (held : Option (Collection.Items α))
    (reading : Log × Attempt (Collection.Items α)) (keep : Collection.Items α → Store → Store) (s : Store) (log : Log) :
    Attempt (Collection.Items α) × Store × Log :=
  match held, reading with
  | some items, _ => (.ok items, s, log)
  | none, (own, .ok items) => (.ok items, keep items s, log ++ own)
  | none, (own, .error fault) => (.error fault, s, log ++ own)

theorem exec_kept_eq {α : Type} (current : Store → Option (Collection.Items α))
    (reading : Store → Log × Attempt (Collection.Items α))
    (keep : Collection.Items α → Store → Store) (s : Store) (log : Log) :
    exec (kept current reading keep) (s, log) = given (current s) (reading s) keep s log := by
  unfold kept
  rw [exec_bind_ok (exec_state _ _)]
  cases current s with
  | some items => rfl
  | none => rcases reading s with ⟨own, _ | items⟩ <;> rfl

theorem Kind.exec_items_eq (kind : Kind) (s : Store) (log : Log) :
    exec kind.items (s, log) = given (kind.held s) (kind.reading s) kind.keep s log := by
  cases kind <;> exact exec_kept_eq _ _ _ s log

theorem readings_singleton (past : List Kind) (kind : Kind) :
    readings store past [kind] = if kind ∈ past ∧ kind.Readable store then [] else [kind] := by
  rw [readings]
  split <;> rfl

theorem messages_singleton (kind : Kind) : messages store [kind] = (kind.reading store).1 := by
  simp [messages]

/-- Asking for a collection gives what reading it gives. -/
theorem records_items (kind : Kind) :
    (collections store).Records kind.items (kind.reading store).2 [kind] := by
  rintro past s log ⟨htree, hsettings, hheld⟩
  rw [kind.exec_items_eq, reading_congr htree hsettings, hheld kind, given.eq_def]
  rcases hreading : kind.reading store with ⟨own, fault | items⟩
  · have hunread : ¬ kind.Readable store := by
      simp [Kind.Readable, hreading, Except.isOk, Except.toBool]
    have hnone : (if kind ∈ past then (kind.reading store).2.toOption else none) = none := by
      simp [hreading, Except.toOption]
    rw [hreading] at hnone
    simp only [hnone]
    refine ⟨s, own, rfl, ⟨htree, hsettings, fun other => ?_⟩, ?_⟩
    · rw [hheld other]
      by_cases hsame : other = kind
      · subst hsame
        simp [hreading, Except.toOption]
      · simp [hsame]
    · change own = _
      rw [readings_singleton, if_neg (fun h => hunread h.2), messages_singleton, hreading]
  · have hread : kind.Readable store := by
      simp [Kind.Readable, hreading, Except.isOk, Except.toBool]
    by_cases hpast : kind ∈ past
    · simp only [if_pos hpast, Except.toOption]
      refine ⟨s, [], by rw [List.append_nil], ⟨htree, hsettings, fun other => ?_⟩, ?_⟩
      · rw [hheld other]
        by_cases hsame : other = kind
        · subst hsame
          simp [hpast]
        · simp [hsame]
      · change [] = _
        rw [readings_singleton, if_pos ⟨hpast, hread⟩]
        rfl
    · simp only [if_neg hpast]
      obtain ⟨hkept, hsame⟩ := kind.tree_keep items s
      refine ⟨kind.keep items s, own, rfl, ⟨hkept.trans htree, hsame.trans hsettings,
        fun other => ?_⟩, ?_⟩
      · rw [kind.held_keep, hheld other]
        by_cases hsame : other = kind
        · subst hsame
          simp [hreading, Except.toOption]
        · simp [hsame]
      · change own = _
        rw [readings_singleton, if_neg (fun h => hpast h.1), messages_singleton, hreading]

variable {α β : Type}

/-- What is made of a collection by itself. -/
theorem records_from {rest : Collection.Items kind.Record → Work Store β}
    {result : Collection.Items kind.Record → Attempt β}
    (h : ∀ items, (collections store).Records (rest items) (result items) []) :
    (collections store).Records (kind.items >>= rest) ((kind.reading store).2 >>= result)
      [kind] := by
  have hitems : (collections store).Records kind.items (kind.reading store).2 [kind] :=
    records_items kind
  cases hreading : (kind.reading store).2 with
  | error fault =>
      rw [hreading] at hitems
      exact hitems.bind_error
  | ok items =>
      rw [hreading] at hitems
      exact hitems.bind_quiet (h items)

theorem records_attempt_map {ledger : Ledger Store Kind} (x : Attempt α) (f : α → β) :
    ledger.Records (do return f (← Work.attempt x)) (x.map f) [] := by
  rw [← map_eq_pure_bind]
  exact (Ledger.Records.attempt x).map f

theorem records_caught {ledger : Ledger Store Kind} {work : Work Store α} {result : Attempt α}
    {asked : List Kind} (h : ledger.Records work result asked) :
    ledger.Records (Work.caught work) (.ok result) asked := by
  intro past s log hs
  obtain ⟨t, later, hexec, ht, htold⟩ := h past s log hs
  exact ⟨t, later, by rw [exec_caught, hexec], ht, htold⟩

theorem Kind.get_eq (kind : Kind) (id : Value) :
    kind.get id = do return (← Work.attempt (find? (← kind.items) id)).map (·.2) := by
  cases kind <;> rfl

theorem Kind.list_eq (kind : Kind) : kind.list = (do Work.attempt (ids (← kind.items))) := by
  cases kind <;> rfl

theorem records_get (kind : Kind) (id : Value) :
    (collections store).Records (kind.get id)
      ((kind.reading store).2 >>= fun items => (find? items id).map (·.map (·.2))) [kind] := by
  rw [kind.get_eq]
  exact records_from fun items => records_attempt_map _ _

theorem records_list (kind : Kind) : (collections store).Records kind.list
    ((kind.reading store).2 >>= ids) [kind] := by
  rw [kind.list_eq]
  exact records_from fun items => .attempt _

theorem records_recipePath (id : Value) : (collections store).Records (recipePath id)
    ((Kind.recipes.reading store).2 >>= fun items => (find? items id).map (·.map (·.1)))
    [.recipes] := by
  change (collections store).Records (Kind.recipes.items >>= fun items => do
    return (← Work.attempt (find? items id)).map (·.1)) _ _
  exact records_from fun items => records_attempt_map _ _

theorem records_promptPaths : (collections store).Records promptPaths
    ((Kind.prompts.reading store).2.map fun items =>
      items.map fun item => (item.1, Prompt.sourcePath item.2.2)) [.prompts] := by
  change (collections store).Records (do return (← Kind.prompts.items).map fun item =>
    (item.1, Prompt.sourcePath item.2.2)) _ _
  rw [← map_eq_pure_bind]
  exact (records_items .prompts).map _

theorem records_preload : (collections store).Records preload
    (do
      let _ ← (Kind.rulepacks.reading store).2
      let _ ← (Kind.agents.reading store).2
      let _ ← (Kind.prompts.reading store).2
      let _ ← (Kind.recipes.reading store).2) [.rulepacks, .agents, .prompts, .recipes] := by
  refine (records_caught (records_items .rulepacks)).bind ?_
  refine (records_caught (records_items .agents)).bind ?_
  refine (records_caught (records_items .prompts)).bind ?_
  refine (records_caught (records_items .recipes)).bind_quiet ?_
  have hall (result : Attempt Unit) (work : Work Store Unit) (h : work = Work.attempt result) :
      (collections store).Records work result [] := h ▸ .attempt result
  apply hall
  cases (Kind.rulepacks.reading store).2 <;> cases (Kind.agents.reading store).2 <;>
    cases (Kind.prompts.reading store).2 <;> cases (Kind.recipes.reading store).2 <;> rfl

/-- A call is answered by the files, in whatever order the calls come. -/
theorem Call.records (call : Call) :
    (collections store).Records call.work (call.answer store) call.kinds := by
  cases call with
  | items kind => exact (records_items kind).map _
  | get kind id => exact (records_get kind id).map _
  | list kind => exact (records_list kind).map _
  | recipePath id => exact (records_recipePath id).map _
  | promptPaths => exact records_promptPaths.map _
  | preload => exact records_preload.map _

/-! ## Collections as answers show them -/

/-- A record has the id of its document. -/
theorem Kind.required_of_parse {path : Path} {v : Value} {record : kind.Record}
    (h : kind.parse store path v = .ok record) : v.required "id" = .ok (kind.id record) := by
  cases kind with
  | rulepacks =>
      obtain ⟨id, hid, h⟩ := Attempt.of_bind_ok h
      iterate 9 obtain ⟨_, _, h⟩ := Attempt.of_bind_ok h
      cases h
      exact hid
  | agents =>
      iterate 2 obtain ⟨_, _, h⟩ := Attempt.of_bind_ok h
      obtain ⟨id, hid, h⟩ := Attempt.of_bind_ok h
      iterate 18 obtain ⟨_, _, h⟩ := Attempt.of_bind_ok h
      cases h
      exact hid
  | prompts =>
      iterate 3 obtain ⟨_, _, h⟩ := Attempt.of_bind_ok h
      obtain ⟨id, hid, h⟩ := Attempt.of_bind_ok h
      iterate 8 obtain ⟨_, _, h⟩ := Attempt.of_bind_ok h
      cases h
      exact hid
  | recipes =>
      iterate 3 obtain ⟨_, _, h⟩ := Attempt.of_bind_ok h
      obtain ⟨id, hid, h⟩ := Attempt.of_bind_ok h
      iterate 18 obtain ⟨_, _, h⟩ := Attempt.of_bind_ok h
      cases h
      exact hid

/-- The numbers in the id of a record are in their usual form. -/
theorem Kind.canonical_of_yields (normal : store.tree.KeepsValues Value.Normal) {path : Path}
    {record : kind.Record} (h : Collection.Yields store.tree (kind.parse store) path record) :
    (kind.id record).Canonical := by
  obtain ⟨v, hdocument, hparse⟩ := h
  have hnormal : v.Normal := normal.normal (Manifests.document_of_document hdocument)
  exact (hnormal.required (Kind.required_of_parse hparse)).canonical

/-- The collection of a kind and what is answered of it, by the manifest files of the kind. -/
structure Kind.Coherent (kind : Kind) (store : Store) (directory : Path) (paths : List Path)
    (items : Collection.Items kind.Record) : Prop where
  place : store.settings.dirPath kind.name = .ok directory
  listed : ∀ path, path ∈ paths ↔ ∃ names, path = Manifests.pathBelow directory names ∧
    store.tree.HasFile directory names ∧
    (Path.splitName (names.getLast?.getD "")).2 ∈ Manifests.suffixes ∧
    (names.getLast?.getD "").startsWith "_" = false ∧ ∀ name ∈ names.dropLast, name ∉ kind.skipped
  sorted : paths.Pairwise fun p q => p.names < q.names
  indexed : Collection.Indexed store.tree kind.name kind.id (kind.parse store) paths items
    (kind.reading store).1
  /-- An id has a manifest exactly if a file holds one with it. -/
  mapped : ∀ id : Value, id.IsKey →
    ((∃ path record, find? items id = .ok (some (path, record))) ↔
      ∃ path ∈ paths, ∃ record, Collection.Yields store.tree (kind.parse store) path record ∧
        (kind.id record).same id = true)
  got : ∀ id, Call.answer store (.get kind id) =
    (find? items id).map fun found => .record kind (found.map (·.2))
  listing : Call.answer store (.list kind) = (ids items).map .ids

theorem Kind.exists_coherent (proper : store.tree.Proper)
    (normal : store.tree.KeepsValues Value.Normal) {items : Collection.Items kind.Record}
    (h : (kind.reading store).2 = .ok items) :
    ∃ directory paths, kind.Coherent store directory paths items := by
  obtain ⟨own, hown⟩ : ∃ own, kind.reading store = (own, .ok items) := ⟨_, Prod.ext rfl h⟩
  have hreading := hown
  rw [Kind.reading, Store.read] at hreading
  cases hplace : store.settings.dirPath kind.name with
  | error fault =>
      rw [hplace] at hreading
      cases hreading
  | ok directory =>
      rw [hplace] at hreading
      simp only at hreading
      cases hfiles : Manifests.files store.tree directory kind.skipped with
      | error fault =>
          rw [Collection.read, hfiles] at hreading
          cases hreading
      | ok paths =>
          have hsorted := Manifests.pairwise_files proper hfiles
          have hindexed := Collection.indexed_of_read
            (fun _ _ hyields => Kind.canonical_of_yields normal hyields)
            (Manifests.nodup_of_pairwise_lt hsorted) hfiles hreading
          refine ⟨directory, paths, hplace, fun path => ?_, hsorted, by rwa [hown],
            fun id hid => ?_, fun id => ?_, ?_⟩
          · simp only [Manifests.mem_files_iff proper hfiles, Manifests.isListed_iff]
          · simp only [hindexed.found id hid, Collection.exists_first_iff]
          · rw [Call.answer, Attempt.bind_eq_of_ok h]
            cases find? items id <;> rfl
          · rw [Call.answer, Attempt.bind_eq_of_ok h]

/-- A recipe is at the file that it was read from, and at no other. -/
theorem answer_recipePath {items : Collection.Items Kind.recipes.Record}
    (h : (Kind.recipes.reading store).2 = .ok items) (id : Value) :
    Call.answer store (.recipePath id) =
      (find? items id).map fun found => .path (found.map (·.1)) := by
  rw [Call.answer, Attempt.bind_eq_of_ok h]
  cases find? items id <;> rfl

/-- A prompt is at the place of its file below the directory, without the ending. -/
theorem Kind.Coherent.exists_place {directory : Path} {paths : List Path}
    {items : Collection.Items Kind.prompts.Record}
    (h : Kind.prompts.Coherent store directory paths items)
    {item : Value × Path × Kind.prompts.Record} (hitem : item ∈ items) :
    ∃ dirs stem ending, ending ∈ Manifests.suffixes ∧
      item.2.1 = Manifests.pathBelow directory (dirs ++ [stem ++ ending]) ∧
        Prompt.sourcePath item.2.2 = .text (Text.join "/" (dirs ++ [stem])) := by
  obtain ⟨hpath, ⟨v, -, hparse⟩, -⟩ := h.indexed.holds item hitem
  obtain ⟨names, hnames, -, hlisted⟩ := (h.listed item.2.1).1 hpath
  obtain ⟨dirs, stem, ending, rfl, hending, hsplit⟩ :=
    exists_ending_of_isListed (Manifests.isListed_iff.2 hlisted)
  have hgiven : ending ≠ "" := by
    rintro rfl
    exact absurd hending (by decide)
  have hplace : store.promptPlace item.2.1 = Text.join "/" (dirs ++ [stem]) := by
    rw [hnames, promptPlace_eq h.place hsplit]
  refine ⟨dirs, stem, ending, hending, hnames, ?_⟩
  have hgiven := Text.join_concat_ne_empty (Path.stem_ne_empty hsplit hgiven) dirs
  rw [← hplace] at hgiven ⊢
  exact Prompt.sourcePath_of_ofValue hgiven hparse

theorem exists_items_of_answer {call : Call} {items : Collection.Items kind.Record}
    (h : Call.answer store call = .ok (.items kind items)) :
    call = .items kind ∧ (kind.reading store).2 = .ok items := by
  have hmap {α : Type} {x : Attempt α} {f : α → Answer} (hx : x.map f = .ok (.items kind items)) :
      ∃ a, x = .ok a ∧ f a = .items kind items := by
    cases x with
    | error fault => cases hx
    | ok a => exact ⟨a, rfl, Except.ok.inj hx⟩
  cases call <;> obtain ⟨a, ha, hanswer⟩ := hmap h <;> cases hanswer
  exact ⟨rfl, ha⟩

/--
Whatever a store is asked for in turn, each call is answered by the files
alone, and the messages are those of the collections that were read. A
collection that is given was read once. It has for an id the manifest of the
first listed file with that id, and one warning for each listed file of which
it has nothing; recipes are found at their files, and prompts have the places
of theirs.
-/
theorem coherent_inTurn {tree : Tree} (settings : Settings) (proper : tree.Proper)
    (normal : tree.KeepsValues Value.Normal) (calls : List Call) :
    let store := ofSettings tree settings
    let answers := (inTurn store (calls.map Call.work)).1
    let kinds := readings store [] (calls.flatMap Call.kinds)
    answers.map (·.1) = calls.map (Call.answer store) ∧
      (answers.map (·.2)).flatten = messages store kinds ∧
      (∀ (kind : Kind) (items : Collection.Items kind.Record),
        .ok (.items kind items) ∈ answers.map (·.1) →
          kinds.count kind = 1 ∧ ∃ directory paths, kind.Coherent store directory paths items) ∧
      (∀ items, .ok (.items .recipes items) ∈ answers.map (·.1) →
        ∀ id, Call.answer store (.recipePath id) =
          (find? items id).map fun found => .path (found.map (·.1))) ∧
      ∀ items, .ok (.items .prompts items) ∈ answers.map (·.1) →
        Call.answer store .promptPaths =
          .ok (.places (items.map fun item => (item.1, Prompt.sourcePath item.2.2))) ∧
        ∃ directory, settings.dirPath "prompts" = .ok directory ∧
          ∀ item ∈ items, ∃ dirs stem ending, ending ∈ Manifests.suffixes ∧
            item.2.1 = Manifests.pathBelow directory (dirs ++ [stem ++ ending]) ∧
              Prompt.sourcePath item.2.2 = .text (Text.join "/" (dirs ++ [stem])) := by
  intro store answers kinds
  have hrecords : ∀ call ∈ calls, (collections store).Records call.work (call.answer store)
      call.kinds := fun call _ => call.records
  have hstart : (collections store).Holds [] store := by
    refine ⟨rfl, rfl, fun kind => ?_⟩
    cases kind <;> rfl
  have hanswers : answers.map (·.1) = calls.map (Call.answer store) :=
    (Ledger.holds_inTurn hrecords hstart).1
  have hgiven {kind : Kind} {items : Collection.Items kind.Record}
      (h : .ok (.items kind items) ∈ answers.map (·.1)) :
      .items kind ∈ calls ∧ (kind.reading store).2 = .ok items := by
    rw [hanswers] at h
    obtain ⟨call, hcall, hanswer⟩ := List.mem_map.1 h
    obtain ⟨rfl, hreading⟩ := exists_items_of_answer hanswer
    exact ⟨hcall, hreading⟩
  refine ⟨hanswers, ?_, fun kind items h => ?_, fun items h id => ?_, fun items h => ?_⟩
  · exact Ledger.told_inTurn hrecords hstart
  · obtain ⟨hcall, hreading⟩ := hgiven h
    refine ⟨?_, kind.exists_coherent proper normal hreading⟩
    have hread : kind.Readable store := by
      rw [Kind.Readable, hreading]
      rfl
    rw [count_readings hread, if_pos]
    exact ⟨List.mem_flatMap.2 ⟨_, hcall, List.mem_singleton_self kind⟩, List.not_mem_nil⟩
  · exact answer_recipePath (hgiven h).2 id
  · obtain ⟨-, hreading⟩ := hgiven h
    obtain ⟨directory, paths, hcoherent⟩ := Kind.exists_coherent proper normal hreading
    refine ⟨?_, directory, hcoherent.place, fun item hitem => hcoherent.exists_place hitem⟩
    rw [Call.answer, hreading]
    rfl

/-- Two agents with one id, and a file without a manifest. -/
def twinTree : Tree := .directory [("04_agents", .directory
  [("early.yml", ofFields [("id", .text "twin"), ("purpose", .text "To start.")]),
   ("empty.yaml", ofFields []),
   ("late.yml", ofFields [("id", .text "twin"), ("purpose", .text "To wait.")])])]

theorem keepsValues_twin : twinTree.KeepsValues Value.Normal := by
  simp [twinTree, ofFields, Tree.KeepsValues, Tree.AllKeepValues, Value.Normal, Value.EntriesNormal]

/-- The first of the two agents is there, and there are two warnings. -/
theorem reading_twin : let reading := Kind.agents.reading (ofSettings twinTree shopSettings)
    reading.1.length = 2 ∧ ∃ items, reading.2 = .ok items ∧
      items.map (·.2.1) = [⟨.root, ["04_agents", "early.yml"]⟩] := by
  intro reading
  have hlisting : twinTree.filesBelow ⟨.root, ["04_agents"]⟩ =
      .ok [["early.yml"], ["empty.yaml"], ["late.yml"]] := by with_unfolding_all rfl
  have hlisted : List.filter (Manifests.isListed [])
      [["early.yml"], ["empty.yaml"], ["late.yml"]] =
        [["early.yml"], ["empty.yaml"], ["late.yml"]] := by decide +kernel
  have hfiles : Manifests.files twinTree ⟨.root, ["04_agents"]⟩ [] = .ok
      [⟨.root, ["04_agents", "early.yml"]⟩, ⟨.root, ["04_agents", "empty.yaml"]⟩,
        ⟨.root, ["04_agents", "late.yml"]⟩] := by
    rw [Manifests.files, hlisting, Attempt.bind_eq_of_ok rfl, hlisted]
    exact congrArg Except.ok (Path.sort_eq_self (by decide +kernel))
  have hreading : reading = Collection.read twinTree ⟨.root, ["04_agents"]⟩ "agents" Agent.id
      (fun _ v => Agent.ofValue v) [] := rfl
  rw [Collection.read, hfiles] at hreading
  have hwarned : reading.1.length = 2 := by
    rw [hreading]
    decide +kernel
  have hplaces : reading.2.toOption.map (·.map (·.2.1)) =
      some [⟨.root, ["04_agents", "early.yml"]⟩] := by
    rw [hreading]
    decide +kernel
  obtain ⟨items, hitems, hplaces⟩ := Option.map_eq_some_iff.1 hplaces
  refine ⟨hwarned, items, ?_, hplaces⟩
  cases hresult : reading.2 with
  | error fault =>
      rw [hresult] at hitems
      cases hitems
  | ok found =>
      rw [hresult] at hitems
      cases hitems
      rfl

theorem coherent_inTurn_twin :
    let store := ofSettings twinTree shopSettings
    let calls := [.preload, .get .agents (.text "twin"), .items .agents]
    let answers := (inTurn store (calls.map Call.work)).1
    twinTree.Proper ∧ twinTree.KeepsValues Value.Normal ∧
      (Kind.agents.reading store).1.length = 2 ∧
      ∃ items, .ok (.items .agents items) ∈ answers.map (·.1) ∧
        (readings store [] (calls.flatMap Call.kinds)).count .agents = 1 ∧
        ∃ directory paths, Kind.agents.Coherent store directory paths items ∧
          items.map (·.2.1) = [⟨.root, ["04_agents", "early.yml"]⟩] := by
  intro store calls answers
  have proper : twinTree.Proper := by
    simp [twinTree, ofFields, Tree.Proper, Tree.ProperEntries]
  obtain ⟨hwarned, items, hreading, hplaces⟩ := reading_twin
  obtain ⟨hanswers, -, hgiven, -⟩ := coherent_inTurn shopSettings proper keepsValues_twin calls
  have hmem : .ok (.items .agents items) ∈ answers.map (·.1) := by
    rw [hanswers]
    refine List.mem_map.2 ⟨.items .agents, by simp [calls], ?_⟩
    rw [Call.answer, hreading]
    rfl
  obtain ⟨hcount, directory, paths, hcoherent⟩ := hgiven .agents items hmem
  exact ⟨proper, keepsValues_twin, hwarned, items, hmem, hcount, directory, paths, hcoherent,
    hplaces⟩

end Store

end Playbook
