import Mathlib.Data.List.Perm.Subperm
import Playbook.Proofs.Value.Tidy

/-!
# Sameness as an equivalence

Sameness of tidy values is symmetric and transitive. Sets and mappings are
compared without regard to order, and there it takes that no key is there
twice: as many keys as another set has, all of them in it, are its keys.
-/

namespace Playbook.Value

/-! ## Members and entries -/

theorem sameItems_iff (items others : List Value) :
    sameItems items others = true ↔ List.Forall₂ (fun x y => x.same y = true) items others := by
  induction items generalizing others with
  | nil => cases others <;> simp [sameItems]
  | cons x items ih => cases others <;> simp [sameItems, ih]

theorem membersIn_iff (members others : List Value) :
    membersIn members others = true ↔ ∀ x ∈ members, ∃ y ∈ others, x.same y = true := by
  induction members with
  | nil => simp [membersIn]
  | cons x members ih => simp [membersIn, ih]

theorem entriesIn_iff (entries others : Entries) :
    entriesIn entries others = true ↔
      ∀ e ∈ entries, ∃ f ∈ others, e.1.same f.1 = true ∧ e.2.same f.2 = true := by
  induction entries with
  | nil => simp [entriesIn]
  | cons e entries ih =>
      obtain ⟨k, v⟩ := e
      rw [entriesIn, Bool.and_eq_true, List.any_eq_true, ih, List.forall_mem_cons]
      simp

/-- Sets are the same if they have the same keys. -/
theorem same_set_iff {members others : List Value} (hmembers : AreKeys members)
    (hothers : AreKeys others) :
    (Value.set members).same (.set others) = true ↔
      (members.map key).Perm (others.map key) := by
  have hkey {x y : Value} (hx : x ∈ members) (hy : y ∈ others) :
      x.same y = true ↔ x.key = y.key :=
    (hmembers.isKey x hx).same_iff (hothers.isKey y hy)
  rw [same, Bool.and_eq_true, beq_iff_eq, membersIn_iff]
  constructor
  · rintro ⟨hlength, hin⟩
    refine (List.subperm_of_subset hmembers.nodup fun k hk => ?_).perm_of_length_le
      (by simp [hlength])
    obtain ⟨x, hx, rfl⟩ := List.mem_map.1 hk
    obtain ⟨y, hy, hsame⟩ := hin x hx
    exact List.mem_map.2 ⟨y, hy, ((hkey hx hy).1 hsame).symm⟩
  · intro hperm
    refine ⟨by simpa using hperm.length_eq, fun x hx => ?_⟩
    obtain ⟨y, hy, hsame⟩ := List.mem_map.1 (hperm.subset (List.mem_map_of_mem hx))
    exact ⟨y, hy, (hkey hx hy).2 hsame.symm⟩

/-- Mappings are the same if they have the same keys and under each of them the same. -/
theorem same_mapping_iff {es fs : Entries} (hes : AreKeys (es.map Prod.fst))
    (hfs : AreKeys (fs.map Prod.fst)) :
    (Value.mapping es).same (.mapping fs) = true ↔
      (es.map (·.1.key)).Perm (fs.map (·.1.key)) ∧
        ∀ e ∈ es, ∀ f ∈ fs, e.1.key = f.1.key → e.2.same f.2 = true := by
  have hkey {e f : Value × Value} (he : e ∈ es) (hf : f ∈ fs) :
      e.1.same f.1 = true ↔ e.1.key = f.1.key :=
    (hes.isKey _ (List.mem_map_of_mem he)).same_iff (hfs.isKey _ (List.mem_map_of_mem hf))
  rw [same, Bool.and_eq_true, beq_iff_eq, entriesIn_iff]
  constructor
  · rintro ⟨hlength, hin⟩
    constructor
    · refine (List.subperm_of_subset hes.nodup_entries fun k hk => ?_).perm_of_length_le
        (by simp [hlength])
      obtain ⟨e, he, rfl⟩ := List.mem_map.1 hk
      obtain ⟨f, hf, hsame, -⟩ := hin e he
      exact List.mem_map.2 ⟨f, hf, ((hkey he hf).1 hsame).symm⟩
    · intro e he f hf hsame
      obtain ⟨g, hg, hkeys, hvalues⟩ := hin e he
      obtain rfl := hfs.eq_of_key_eq hg hf (((hkey he hg).1 hkeys).symm.trans hsame)
      exact hvalues
  · rintro ⟨hperm, hvalues⟩
    refine ⟨by simpa using hperm.length_eq, fun e he => ?_⟩
    obtain ⟨f, hf, hsame⟩ := List.mem_map.1 (hperm.subset (List.mem_map_of_mem he))
    exact ⟨f, hf, (hkey he hf).2 hsame.symm, hvalues e he f hf hsame.symm⟩

/-! ## What is the same as a value -/

section

variable {w : Value}

/-- Only a value that holds no others is the same as one. -/
theorem isSingle_of_same {v : Value} (hsingle : v.isSingle = true) (h : v.same w = true) :
    w.isSingle = true := by
  cases w with
  | list | tuple | set | mapping | cycle | again =>
      cases v <;> first | cases hsingle; done | simp [same, samePlain, sameNumber?] at h
  | _ => rfl

theorem of_list_same {items : List Value} (h : (Value.list items).same w = true) :
    ∃ others, w = .list others ∧ List.Forall₂ (fun x y => x.same y = true) items others := by
  cases w with
  | list others => exact ⟨others, rfl, (sameItems_iff _ _).1 (by rwa [same] at h)⟩
  | _ => simp [same, samePlain, sameNumber?] at h

theorem of_tuple_same {items : List Value} (h : (Value.tuple items).same w = true) :
    ∃ others, w = .tuple others ∧ List.Forall₂ (fun x y => x.same y = true) items others := by
  cases w with
  | tuple others => exact ⟨others, rfl, (sameItems_iff _ _).1 (by rwa [same] at h)⟩
  | _ => simp [same, samePlain, sameNumber?] at h

theorem of_set_same {members : List Value} (h : (Value.set members).same w = true) :
    ∃ others, w = .set others := by
  cases w with
  | set others => exact ⟨others, rfl⟩
  | _ => simp [same, samePlain, sameNumber?] at h

theorem of_mapping_same {es : Entries} (h : (Value.mapping es).same w = true) :
    ∃ fs, w = .mapping fs := by
  cases w with
  | mapping fs => exact ⟨fs, rfl⟩
  | _ => simp [same, samePlain, sameNumber?] at h

theorem of_cycle_same {name : Nat} {content : Value}
    (h : (Value.cycle name content).same w = true) :
    ∃ within, w = .cycle name within ∧ content.same within = true := by
  cases w with
  | cycle other within =>
      rw [same, Bool.and_eq_true, beq_iff_eq] at h
      exact ⟨within, by rw [h.1], h.2⟩
  | _ => simp [same, samePlain, sameNumber?] at h

theorem of_again_same {name : Nat} (h : (Value.again name).same w = true) : w = .again name := by
  cases w with
  | again other =>
      rw [same, beq_iff_eq] at h
      rw [h]
  | _ => simp [same, samePlain, sameNumber?] at h

end

/-! ## Symmetry and transitivity -/

theorem forall₂_symm {xs ys : List Value}
    (hsymm : ∀ x ∈ xs, ∀ y ∈ ys, x.same y = true → y.same x = true)
    (h : List.Forall₂ (fun x y => x.same y = true) xs ys) :
    List.Forall₂ (fun y x => y.same x = true) ys xs := by
  induction h with
  | nil => exact .nil
  | cons hxy _ ih =>
      refine .cons (hsymm _ List.mem_cons_self _ List.mem_cons_self hxy) (ih fun x hx y hy => ?_)
      exact hsymm x (List.mem_cons_of_mem _ hx) y (List.mem_cons_of_mem _ hy)

theorem forall₂_trans {xs ys zs : List Value}
    (htrans : ∀ x ∈ xs, ∀ y ∈ ys, ∀ z ∈ zs, x.same y = true → y.same z = true → x.same z = true)
    (h : List.Forall₂ (fun x y => x.same y = true) xs ys)
    (h' : List.Forall₂ (fun y z => y.same z = true) ys zs) :
    List.Forall₂ (fun x z => x.same z = true) xs zs := by
  induction h generalizing zs with
  | nil => exact h'
  | cons hxy _ ih =>
      obtain _ | ⟨hyz, hrest⟩ := h'
      refine .cons (htrans _ List.mem_cons_self _ List.mem_cons_self _ List.mem_cons_self hxy hyz)
        (ih (fun x hx y hy z hz => ?_) hrest)
      exact htrans x (List.mem_cons_of_mem _ hx) y (List.mem_cons_of_mem _ hy) z
        (List.mem_cons_of_mem _ hz)

variable {u v w : Value}

theorem Tidy.isKey_of_isSingle (h : v.Tidy) (hsingle : v.isSingle = true) : v.IsKey := by
  cases v with
  | list | tuple | set | mapping | cycle | again => cases hsingle
  | float x => exact ⟨rfl, h⟩
  | _ => exact ⟨rfl, trivial⟩

theorem Tidy.same_symm (hv : v.Tidy) (hw : w.Tidy) (h : v.same w = true) : w.same v = true := by
  induction v using induction_held generalizing w with
  | single v hsingle =>
      have hvkey := hv.isKey_of_isSingle hsingle
      have hwkey := hw.isKey_of_isSingle (isSingle_of_same hsingle h)
      exact (hwkey.same_iff hvkey).2 ((hvkey.same_iff hwkey).1 h).symm
  | list items ih =>
      obtain ⟨others, rfl, hitems⟩ := of_list_same h
      rw [same, sameItems_iff]
      exact forall₂_symm (fun x hx y hy =>
        ih x hx (tidy_list.1 hv x hx) (tidy_list.1 hw y hy)) hitems
  | tuple items ih =>
      obtain ⟨others, rfl, hitems⟩ := of_tuple_same h
      rw [same, sameItems_iff]
      exact forall₂_symm (fun x hx y hy =>
        ih x hx (tidy_tuple.1 hv x hx) (tidy_tuple.1 hw y hy)) hitems
  | set members =>
      obtain ⟨others, rfl⟩ := of_set_same h
      exact (same_set_iff hw hv).2 ((same_set_iff hv hw).1 h).symm
  | mapping es ih =>
      obtain ⟨fs, rfl⟩ := of_mapping_same h
      rw [tidy_mapping] at hv hw
      obtain ⟨hperm, hvalues⟩ := (same_mapping_iff hv.1 hw.1).1 h
      refine (same_mapping_iff hw.1 hv.1).2 ⟨hperm.symm, fun f hf e he hkey => ?_⟩
      exact ih e he (hv.2 e he) (hw.2 f hf) (hvalues e he f hf hkey.symm)
  | cycle name content ih =>
      obtain ⟨within, rfl, hwithin⟩ := of_cycle_same h
      rw [same, Bool.and_eq_true, beq_iff_eq]
      exact ⟨rfl, ih (w := within) hv hw hwithin⟩
  | again name =>
      rw [of_again_same h, same_refl]

theorem Tidy.same_trans (hu : u.Tidy) (hv : v.Tidy) (hw : w.Tidy) (h : u.same v = true)
    (h' : v.same w = true) : u.same w = true := by
  induction u using induction_held generalizing v w with
  | single u hsingle =>
      have hvsingle := isSingle_of_same hsingle h
      have hukey := hu.isKey_of_isSingle hsingle
      have hvkey := hv.isKey_of_isSingle hvsingle
      have hwkey := hw.isKey_of_isSingle (isSingle_of_same hvsingle h')
      exact (hukey.same_iff hwkey).2
        (((hukey.same_iff hvkey).1 h).trans ((hvkey.same_iff hwkey).1 h'))
  | list items ih =>
      obtain ⟨middle, rfl, hitems⟩ := of_list_same h
      obtain ⟨others, rfl, hothers⟩ := of_list_same h'
      rw [same, sameItems_iff]
      exact forall₂_trans (fun x hx y hy z hz => ih x hx (tidy_list.1 hu x hx)
        (tidy_list.1 hv y hy) (tidy_list.1 hw z hz)) hitems hothers
  | tuple items ih =>
      obtain ⟨middle, rfl, hitems⟩ := of_tuple_same h
      obtain ⟨others, rfl, hothers⟩ := of_tuple_same h'
      rw [same, sameItems_iff]
      exact forall₂_trans (fun x hx y hy z hz => ih x hx (tidy_tuple.1 hu x hx)
        (tidy_tuple.1 hv y hy) (tidy_tuple.1 hw z hz)) hitems hothers
  | set members =>
      obtain ⟨middle, rfl⟩ := of_set_same h
      obtain ⟨others, rfl⟩ := of_set_same h'
      exact (same_set_iff hu hw).2
        (((same_set_iff hu hv).1 h).trans ((same_set_iff hv hw).1 h'))
  | mapping es ih =>
      obtain ⟨fs, rfl⟩ := of_mapping_same h
      obtain ⟨gs, rfl⟩ := of_mapping_same h'
      rw [tidy_mapping] at hu hv hw
      obtain ⟨hperm, hvalues⟩ := (same_mapping_iff hu.1 hv.1).1 h
      obtain ⟨hperm', hvalues'⟩ := (same_mapping_iff hv.1 hw.1).1 h'
      refine (same_mapping_iff hu.1 hw.1).2 ⟨hperm.trans hperm', fun e he g hg hkey => ?_⟩
      obtain ⟨f, hf, hsame⟩ := List.mem_map.1 (hperm.subset (List.mem_map_of_mem he))
      exact ih e he (hu.2 e he) (hv.2 f hf) (hw.2 g hg) (hvalues e he f hf hsame.symm)
        (hvalues' f hf g hg (hsame.trans hkey))
  | cycle name content ih =>
      obtain ⟨within, rfl, hwithin⟩ := of_cycle_same h
      obtain ⟨inside, rfl, hinside⟩ := of_cycle_same h'
      rw [same, Bool.and_eq_true, beq_iff_eq]
      exact ⟨rfl, ih (v := within) (w := inside) hu hv hw hwithin hinside⟩
  | again name =>
      rw [of_again_same h] at h'
      exact h'

/-- Sameness is an equivalence of tidy values. -/
theorem same_equivalence :
    Equivalence fun v w : { v : Value // v.Tidy } => v.1.same w.1 = true where
  refl v := same_refl v.1
  symm {v w} := v.2.same_symm w.2
  trans {u v w} := u.2.same_trans v.2 w.2

end Playbook.Value
