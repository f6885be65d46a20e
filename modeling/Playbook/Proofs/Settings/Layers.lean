import Playbook.Proofs.Settings.Paths
import Playbook.Proofs.Work
import Playbook.Settings

/-!
# Laws of layers

A layer that is laid over again changes nothing, and layers that agree on what
is a mapping, a list or neither can be joined in any grouping, so that settings
do not depend on whether their layers are joined one by one or beforehand.
-/

namespace Playbook

namespace Value

variable {a b c v : Value}

/-! ## A layer over itself -/

theorem overlay_eq_self (h : Joinable a b) (heq : a = b) (hgrounded : b.Grounded) :
    a.overlay b = b := by
  induction h using Joinable.induction with
  | level a b h ih =>
      subst heq
      rcases h.overlay_cases with ⟨es, fs, hes, hfs, heq⟩ | ⟨xs, ys, hxs, hys, heq⟩ | ⟨-, heq⟩
      · obtain ⟨rfl, hheld⟩ := hgrounded.of_opened hes
        cases hfs
        have hself (e : Value × Value) (he : e ∈ es) : e.2.overlay e.2 = e.2 :=
          ih es es rfl rfl e he e he rfl (hheld e he)
        rw [heq, Entries.joinEntries_self h.lowerTidy.1 hself]
      · obtain rfl : xs = ys := Value.list.inj (hxs.symm.trans hys)
        rw [heq, addMissing_self, ← hxs, hgrounded.opened]
      · exact heq

theorem overlay_self (htidy : v.Tidy) (hgrounded : v.Grounded) : v.overlay v = v :=
  overlay_eq_self ⟨htidy, htidy, .inl hgrounded⟩ rfl hgrounded

theorem overlay_overlay_self (h : Joinable a b) (hgrounded : b.Grounded) :
    (a.overlay b).overlay b = a.overlay b := by
  induction h using Joinable.induction with
  | level a b h ih =>
      have hjoined : Joinable (a.overlay b) b := ⟨h.tidy_overlay, h.upperTidy, .inr hgrounded⟩
      rcases h.overlay_cases with ⟨es, fs, hes, hfs, heq⟩ | ⟨xs, ys, hxs, hys, heq⟩ | ⟨-, heq⟩
      · obtain ⟨rfl, hheld⟩ := hgrounded.of_opened hfs
        rw [hjoined.overlay_mapping (congrArg opened heq) hfs, heq]
        refine congrArg Value.mapping (Entries.joinEntries_joinEntries_self
          (h.lowerTidy.of_opened hes).1 h.upperTidy.1 (fun e he f hf => ?_) fun f hf => ?_)
        · exact ih es fs hes hfs e he f hf (hheld f hf)
        · exact overlay_self ((tidy_mapping.1 h.upperTidy).2 f hf) (hheld f hf)
      · rw [hjoined.overlay_list (congrArg opened heq) hys, heq, addMissing_addMissing_self]
      · rw [heq, overlay_self h.upperTidy hgrounded]

/-! ## Layers that agree -/

/-- Layers that can be joined and agree on the shapes of what they have. -/
structure Fits (lower upper : Value) : Prop where
  joinable : Joinable lower upper
  agrees : lower.Agrees upper

theorem Fits.held {es fs : Entries} {key u w : Value} (h : Fits a b) (hes : a.opened = .mapping es)
    (hfs : b.opened = .mapping fs) (hkey : key.IsKey) (hu : Entries.find? es key = some u)
    (hw : Entries.find? fs key = some w) : Fits u w := by
  obtain ⟨_, he, -⟩ := Entries.mem_of_find? hu
  obtain ⟨_, hf, -⟩ := Entries.mem_of_find? hw
  exact ⟨h.joinable.held hes hfs he hf, h.agrees.held hes hfs hkey hu hw⟩

theorem overlay_assoc (hab : Fits a b) (hac : Fits a c) (hbc : Fits b c) :
    (a.overlay b).overlay c = a.overlay (b.overlay c) := by
  obtain ⟨h, hagrees⟩ := hab
  induction h using Joinable.induction generalizing c with
  | level a b h ih =>
      have hleft := h.overlay_left hac.joinable hbc.joinable
      have hright := h.overlay_right hac.joinable hbc.joinable
      have hshape := hac.agrees.shape_eq
      have hshape' := hbc.agrees.shape_eq
      cases hc : c.shape with
      | mapping =>
          obtain ⟨es, hes⟩ := shape_eq_mapping_iff.1 (hshape.trans hc)
          obtain ⟨fs, hfs⟩ := shape_eq_mapping_iff.1 (hshape'.trans hc)
          obtain ⟨gs, hgs⟩ := shape_eq_mapping_iff.1 hc
          rw [hleft.overlay_mapping (congrArg opened (h.overlay_mapping hes hfs)) hgs,
            hright.overlay_mapping hes (congrArg opened (hbc.joinable.overlay_mapping hfs hgs))]
          refine congrArg Value.mapping (Entries.joinEntries_assoc (h.lowerTidy.of_opened hes).1
            (h.upperTidy.of_opened hfs).1 (hac.joinable.upperTidy.of_opened hgs).1 ?_)
          intro key hkey u v w hu hv hw
          obtain ⟨_, he, -⟩ := Entries.mem_of_find? hu
          obtain ⟨_, hf, -⟩ := Entries.mem_of_find? hv
          exact ih es fs hes hfs _ he _ hf (hac.held hes hgs hkey hu hw)
            (hbc.held hfs hgs hkey hv hw) (hagrees.held hes hfs hkey hu hv)
      | list =>
          obtain ⟨xs, hxs⟩ := shape_eq_list_iff.1 (hshape.trans hc)
          obtain ⟨ys, hys⟩ := shape_eq_list_iff.1 (hshape'.trans hc)
          obtain ⟨zs, hzs⟩ := shape_eq_list_iff.1 hc
          rw [hleft.overlay_list (congrArg opened (h.overlay_list hxs hys)) hzs,
            hright.overlay_list hxs (congrArg opened (hbc.joinable.overlay_list hys hzs))]
          refine congrArg Value.list (addMissing_assoc fun x hx y hy z hz => ?_)
          exact (h.lowerTidy.of_list hxs x hx).same_trans (h.upperTidy.of_list hys y hy)
            (hac.joinable.upperTidy.of_list hzs z hz)
      | other =>
          rw [hleft.overlay_of_shape_other hc, hbc.joinable.overlay_of_shape_other hc,
            hac.joinable.overlay_of_shape_other hc]

theorem Fits.overlay_left (hab : Fits a b) (hac : Fits a c) (hbc : Fits b c) :
    Fits (a.overlay b) c := by
  refine ⟨hab.joinable.overlay_left hac.joinable hbc.joinable, ?_⟩
  intro path hpath held other hheld hother
  obtain ⟨w, hw | hw, hshape⟩ := hab.joinable.of_at?_overlay hpath hheld
  · exact hshape.symm.trans (hac.agrees path hpath w other hw hother)
  · exact hshape.symm.trans (hbc.agrees path hpath w other hw hother)

theorem Fits.overlay_right (hab : Fits a b) (hac : Fits a c) (hbc : Fits b c) :
    Fits a (b.overlay c) := by
  refine ⟨hab.joinable.overlay_right hac.joinable hbc.joinable, ?_⟩
  intro path hpath held other hheld hother
  obtain ⟨w, hw | hw, hshape⟩ := hbc.joinable.of_at?_overlay hpath hother
  · exact (hab.agrees path hpath held w hheld hw).trans hshape
  · exact (hac.agrees path hpath held w hheld hw).trans hshape

/-- Layers that fit can be joined one by one, or all that go over the first one beforehand. -/
theorem foldl_overlay {base layer : Value} {layers : List Value}
    (h : (base :: layer :: layers).Pairwise Fits) :
    (layer :: layers).foldl overlay base = base.overlay (layers.foldl overlay layer) := by
  induction layers generalizing layer with
  | nil => rfl
  | cons next layers ih =>
      obtain ⟨hbase, hrest⟩ := List.pairwise_cons.1 h
      obtain ⟨hlayer, hrest⟩ := List.pairwise_cons.1 hrest
      obtain ⟨hnext, hlayers⟩ := List.pairwise_cons.1 hrest
      obtain ⟨hbl, hbase⟩ := List.forall_mem_cons.1 hbase
      obtain ⟨hbn, hbase⟩ := List.forall_mem_cons.1 hbase
      obtain ⟨hln, hlayer⟩ := List.forall_mem_cons.1 hlayer
      have hjoined : (base :: layer.overlay next :: layers).Pairwise Fits := by
        refine List.pairwise_cons.2 ⟨List.forall_mem_cons.2 ⟨hbl.overlay_right hbn hln, hbase⟩,
          List.pairwise_cons.2 ⟨fun other hother => ?_, hlayers⟩⟩
        exact hln.overlay_left (hlayer other hother) (hnext other hother)
      calc (layer :: next :: layers).foldl overlay base
          = layers.foldl overlay ((base.overlay layer).overlay next) := rfl
        _ = layers.foldl overlay (base.overlay (layer.overlay next)) := by
            rw [overlay_assoc hbl hbn hln]
        _ = base.overlay (layers.foldl overlay (layer.overlay next)) := ih hjoined

end Value

/-! ## Settings from layers -/

namespace Settings

open Value (AreKeys Fits textLayer tidy_textLayer grounded_textLayer)
open Work

variable {tree : Tree} {environment : Environment} {root : Path}

theorem overlay_mapping_nil (es : Entries) :
    (Value.mapping es).overlay (.mapping []) = .mapping es := by
  simp [Value.overlay, Value.opened, Value.overlayEntries]

/-- Where a file of the configuration is looked for. -/
def configPath (root : Path) (name : String) : Path := (root.child configDir).child name

/-- A file is noted as a source if it has entries. -/
def noted (path : Path) (entries : Entries) : List String :=
  if entries.isEmpty then [] else [path.text]

theorem exec_addLayer {path : Path} {layers : Layers} {es : Entries} {read : Entries × Log}
    (hconfig : layers.config = .mapping es) (hread : layer tree path = .ok read)
    (s : Unit × Log) :
    exec (addLayer tree path layers) s =
      (.ok ⟨layers.config.overlay (.mapping read.1), layers.sources ++ noted path read.1⟩,
        s.1, s.2 ++ read.2) := by
  obtain ⟨entries, log⟩ := read
  obtain ⟨s, before⟩ := s
  rw [addLayer, hread]
  cases entries with
  | nil =>
      have hsame : layers.config.overlay (.mapping []) = layers.config := by
        rw [hconfig, overlay_mapping_nil]
      simp [exec_bind, noted, hsame, Except.map]
  | cons e es => simp [exec_bind, noted, Except.map]

/-- The files that were read are laid over the defaults one by one. -/
theorem exec_load {first second : Entries × Log}
    (hfirst : layer tree (configPath root "config.yml") = .ok first)
    (hsecond : layer tree (configPath root "config.local.yml") = .ok second) (s : Unit × Log) :
    exec (load tree environment root) s =
      (ofLayers root (addEnvironment environment
        { config := (defaultConfig.overlay (.mapping first.1)).overlay (.mapping second.1)
          sources := ["defaults"] ++ noted (configPath root "config.yml") first.1 ++
            noted (configPath root "config.local.yml") second.1 }),
        s.1, s.2 ++ first.2 ++ second.2) := by
  obtain ⟨es, hes⟩ : ∃ es, defaultConfig = .mapping es := ⟨_, rfl⟩
  obtain ⟨fs, hfs⟩ : ∃ fs, defaultConfig.overlay (.mapping first.1) = .mapping fs := by
    rw [hes]
    exact ⟨_, rfl⟩
  have hlower := exec_addLayer (show (Layers.mk defaultConfig ["defaults"]).config = _ from hes)
    hfirst s
  rw [load]
  simp only [configFiles, List.foldlM_cons, List.foldlM_nil, bind_assoc]
  refine (exec_bind_ok hlower).trans ?_
  exact exec_bind_ok (exec_addLayer hfs hsecond _)

theorem areKeys_texts {names : List String} (h : names.Nodup) :
    AreKeys (names.map Value.text) := by
  induction names with
  | nil => exact .nil
  | cons name names ih =>
      obtain ⟨hname, hnames⟩ := List.nodup_cons.1 h
      refine AreKeys.cons_iff.2 ⟨.text name, List.forall_mem_map.2 fun other hother hkey => ?_,
        ih hnames⟩
      cases hkey
      exact hname hother

theorem agrees_textLayer {es : Entries} {name : String} (hes : ∀ key ∈ es.map Prod.fst, key.IsKey)
    (h : ∀ u, Entries.find? es (.text name) = some u → u.shape = .list) (texts : List String) :
    (Value.mapping es).Agrees (textLayer name texts) := by
  intro path hpath held other hheld hother
  cases path with
  | nil =>
      cases hheld
      cases hother
      rfl
  | cons key path =>
      obtain ⟨hkey, -⟩ := List.forall_mem_cons.1 hpath
      obtain ⟨_, u, ⟨⟩, hu, hheld⟩ := Value.exists_of_at?_cons hheld
      obtain ⟨_, w, ⟨⟩, hw, hother⟩ := Value.exists_of_at?_cons hother
      rw [Entries.find?_cons] at hw
      split at hw
      · rename_i hsame
        rw [← Entries.find?_congr hes (.text name) hkey hsame] at hu
        cases hw
        cases path with
        | nil =>
            cases hheld
            cases hother
            exact h _ hu
        | cons => cases hother
      · cases hw

theorem tidy_defaultConfig : defaultConfig.Tidy := by
  have hkeys : AreKeys (["directories", "output_dir", "docs_dir", "logs_dir", "project_sources",
      "default_tools", "max_workers"].map .text) := areKeys_texts (by decide)
  have hnames : AreKeys (["rulepacks", "skills", "prompts", "agents", "recipes",
      "projects"].map .text) := areKeys_texts (by decide)
  have hdirectories : (Value.mapping (defaultDirectories.map fun d =>
      (.text d.1, .text d.2))).Tidy :=
    Value.tidy_mapping.2 ⟨hnames, List.forall_mem_map.2 fun _ _ => trivial⟩
  exact ⟨hkeys, hdirectories, trivial, trivial, trivial, Value.tidy_texts _,
    Value.tidy_texts _, trivial, trivial⟩

theorem grounded_defaultConfig : defaultConfig.Grounded := by
  have hdirectories : (Value.mapping (defaultDirectories.map fun d =>
      (.text d.1, .text d.2))).Grounded :=
    Value.grounded_mapping.2 (List.forall_mem_map.2 fun _ _ => trivial)
  exact ⟨hdirectories, trivial, trivial, trivial, Value.grounded_texts _,
    Value.grounded_texts _, trivial, trivial⟩

theorem fits_textLayer (name : String) (texts more : List String) :
    Fits (textLayer name texts) (textLayer name more) := by
  refine ⟨⟨tidy_textLayer _ _, tidy_textLayer _ _, .inl (grounded_textLayer _ _)⟩,
    agrees_textLayer (by simpa using Value.IsKey.text name) (fun u hu => ?_) more⟩
  rw [Entries.find?_cons, Value.same_refl, if_pos rfl] at hu
  cases hu
  rfl

theorem fits_defaultConfig (texts : List String) :
    Fits defaultConfig (textLayer "default_tools" texts) := by
  refine ⟨⟨tidy_defaultConfig, tidy_textLayer _ _, .inl grounded_defaultConfig⟩,
    agrees_textLayer tidy_defaultConfig.1.isKey (fun u hu => ?_) texts⟩
  have htools := Entries.find?_of_mem tidy_defaultConfig.1 (e := (.text "default_tools",
    textList ["claude-code", "copilot-cli", "cursor"])) (by simp)
  cases hu.symm.trans htools
  rfl

/-- A repository with two files that each name tools. -/
def toolTree (shared own : List String) : Tree :=
  let file := fun tools => Tree.file ⟨.document (textLayer "default_tools" tools), false⟩
  .directory [("15_config", .directory
    [("config.yml", file shared), ("config.local.yml", file own)])]

end Settings

end Playbook
