import Mathlib.Data.List.Induction
import Mathlib.Data.List.Nodup
import Std.Data.ExtTreeMap

/-!
# Ordered maps and lists of entries

A map is rebuilt from its list of entries, and from the entries of another map that
holds them under encoded keys and values.
-/

namespace TgWsProxy.Core

open Std

variable {α β : Type*} [Ord α] [TransOrd α]

/-- The last entry under a key counts. -/
theorem getElem?_ofList_concat (l : List (α × β)) (e : α × β) (k : α) :
    (ExtTreeMap.ofList (l ++ [e]))[k]? =
      if compare e.1 k = .eq then some e.2 else (ExtTreeMap.ofList l)[k]? := by
  rw [ExtTreeMap.ofList_eq_foldl, ExtTreeMap.ofList_eq_foldl, List.foldl_append]
  exact ExtTreeMap.getElem?_insert

variable [LawfulEqOrd α]

/-- What a map built from a list holds is in the list. -/
theorem mem_of_getElem?_ofList {l : List (α × β)} {k : α} {v : β}
    (h : (ExtTreeMap.ofList l)[k]? = some v) : (k, v) ∈ l := by
  induction l using List.reverseRecOn with
  | nil => simp at h
  | append_singleton l e ih =>
    rw [getElem?_ofList_concat] at h
    by_cases he : compare e.1 k = .eq
    · rw [if_pos he] at h
      obtain rfl := Option.some.inj h
      obtain rfl := LawfulEqCmp.compare_eq_iff_eq.mp he
      simp
    · rw [if_neg he] at h
      exact List.mem_append_left _ (ih h)

private theorem getElem?_ofList_isSome {l : List (α × β)} {k : α} {v : β} (h : (k, v) ∈ l) :
    ∃ w, (ExtTreeMap.ofList l)[k]? = some w := by
  induction l using List.reverseRecOn with
  | nil => cases h
  | append_singleton l e ih =>
    rw [getElem?_ofList_concat]
    by_cases he : compare e.1 k = .eq
    · exact ⟨e.2, if_pos he⟩
    · rw [if_neg he]
      rcases List.mem_append.mp h with h | h
      · exact ih h
      · rw [← List.mem_singleton.mp h] at he
        exact absurd ReflCmp.compare_self he

/-- A map has just the entries of a list where it has one value for each key there. -/
theorem ofList_eq_of_mem {l : List (α × β)} {m : ExtTreeMap α β}
    (h : ∀ e, e ∈ l ↔ e ∈ m.toList) : ExtTreeMap.ofList l = m := by
  apply ExtTreeMap.ext_getElem?
  intro k
  cases hk : (ExtTreeMap.ofList l)[k]? with
  | some v =>
    have hmem := (h _).mp (mem_of_getElem?_ofList hk)
    exact (ExtTreeMap.mem_toList_iff_getElem?_eq_some.mp hmem).symm
  | none =>
    cases hm : m[k]? with
    | none => rfl
    | some v =>
      have hmem := (h _).mpr (ExtTreeMap.mem_toList_iff_getElem?_eq_some.mpr hm)
      obtain ⟨w, hw⟩ := getElem?_ofList_isSome hmem
      rw [hk] at hw
      cases hw

/-- The entries of a map rebuild it. -/
theorem ofList_toList (m : ExtTreeMap α β) : ExtTreeMap.ofList m.toList = m :=
  ofList_eq_of_mem fun _ => Iff.rfl

/-- Entries under other keys do not change what is found. -/
theorem getElem?_insertMany_of_notMem {l : List (α × β)} {k : α} (h : ∀ v, (k, v) ∉ l)
    (m : ExtTreeMap α β) : (m.insertMany l)[k]? = m[k]? := by
  induction l generalizing m with
  | nil => rw [ExtTreeMap.insertMany_nil]
  | cons e l ih =>
    have hne : ¬compare e.1 k = .eq := by
      intro he
      obtain rfl := LawfulEqCmp.compare_eq_iff_eq.mp he
      exact h e.2 (List.mem_cons_self ..)
    rw [ExtTreeMap.insertMany_cons, ih fun v hv => h v (List.mem_cons_of_mem _ hv),
      ExtTreeMap.getElem?_insert, if_neg hne]

/-- The entries of a second map count before those of the first. -/
theorem getElem?_insertMany_toList [BEq α] [LawfulBEqOrd α] (m m' : ExtTreeMap α β) (k : α) :
    (m.insertMany m'.toList)[k]? = m'[k]?.or m[k]? := by
  cases hk : m'[k]? with
  | some v =>
    have hmem := ExtTreeMap.mem_toList_iff_getElem?_eq_some.mpr hk
    exact ExtTreeMap.getElem?_insertMany_list_of_mem ReflCmp.compare_self
      ExtTreeMap.distinct_keys_toList hmem
  | none =>
    rw [Option.none_or]
    apply getElem?_insertMany_of_notMem
    intro v hv
    rw [ExtTreeMap.mem_toList_iff_getElem?_eq_some, hk] at hv
    cases hv

/-- Where no key is repeated, the map built from a list finds what the list holds. -/
theorem getElem?_ofList_of_nodup {l : List (α × β)} (h : (l.map (·.1)).Nodup) {k : α} {v : β}
    (hmem : (k, v) ∈ l) : (ExtTreeMap.ofList l)[k]? = some v := by
  obtain ⟨w, hw⟩ := getElem?_ofList_isSome hmem
  have hsame := List.inj_on_of_nodup_map h (mem_of_getElem?_ofList hw) hmem rfl
  rw [hw, (Prod.mk.inj hsame).2]

variable {γ δ : Type*}

/-- A traversal that succeeds on every element collects just their images. -/
theorem exists_mapM {f : γ → Option δ} {l : List γ} (h : ∀ x ∈ l, ∃ y, f x = some y) :
    ∃ ys, l.mapM f = some ys ∧ ∀ y, y ∈ ys ↔ ∃ x ∈ l, f x = some y := by
  induction l with
  | nil => exact ⟨[], rfl, by simp⟩
  | cons x l ih =>
    obtain ⟨y, hy⟩ := h x (List.mem_cons_self ..)
    obtain ⟨ys, hys, hmem⟩ := ih fun x' hx' => h x' (List.mem_cons_of_mem _ hx')
    refine ⟨y :: ys, by simp [hy, hys], fun z => ?_⟩
    rw [List.mem_cons, hmem]
    constructor
    · rintro (rfl | ⟨x', hx', hz⟩)
      · exact ⟨x, List.mem_cons_self .., hy⟩
      · exact ⟨x', List.mem_cons_of_mem _ hx', hz⟩
    · rintro ⟨x', hx', hz⟩
      rcases List.mem_cons.mp hx' with rfl | hx'
      · exact .inl (Option.some.inj (hz.symm.trans hy))
      · exact .inr ⟨x', hx', hz⟩

variable [Ord γ] [TransOrd γ] [LawfulEqOrd γ]

/-- The entries of a map under encoded keys and values. -/
def encodeMap (key : α → γ) (value : β → δ) (m : ExtTreeMap α β) : ExtTreeMap γ δ :=
  ExtTreeMap.ofList (m.toList.map fun e => (key e.1, value e.2))

/-- The map whose entries are encoded by some list, if each one decodes. -/
def decodeMap (key : γ → Option α) (value : δ → Option β) (l : List (γ × δ)) :
    Option (ExtTreeMap α β) :=
  (l.mapM fun e => (key e.1).bind fun k => (value e.2).map fun v => (k, v)).map
    (ExtTreeMap.ofList ·)

/-- Decoding undoes encoding where it does so for each key and value of the map. -/
theorem decodeMap_encodeMap {key : α → γ} {value : β → δ} {key' : γ → Option α}
    {value' : δ → Option β} {m : ExtTreeMap α β}
    (hkey : ∀ e ∈ m.toList, key' (key e.1) = some e.1)
    (hvalue : ∀ e ∈ m.toList, value' (value e.2) = some e.2) :
    decodeMap key' value' (encodeMap key value m).toList = some m := by
  have hmem (p : γ × δ) : p ∈ (encodeMap key value m).toList ↔
      ∃ e ∈ m.toList, (key e.1, value e.2) = p := by
    rw [← List.mem_map, ExtTreeMap.mem_toList_iff_getElem?_eq_some (k := p.1) (v := p.2)]
    constructor
    · exact mem_of_getElem?_ofList
    · intro hp
      -- whatever stands under the key of `p` is encoded from the same entry
      obtain ⟨w, hw⟩ := getElem?_ofList_isSome hp
      obtain ⟨e, he, rfl⟩ := List.mem_map.mp hp
      obtain ⟨e', he', hpair⟩ := List.mem_map.mp (mem_of_getElem?_ofList hw)
      obtain ⟨hk, rfl⟩ := Prod.mk.inj hpair
      have hsame : e'.1 = e.1 := by
        have := (hkey e' he').symm.trans ((congrArg key' hk).trans (hkey e he))
        exact Option.some.inj this
      have hv := ExtTreeMap.mem_toList_iff_getElem?_eq_some.mp he
      have hv' := ExtTreeMap.mem_toList_iff_getElem?_eq_some.mp he'
      rw [hsame, hv] at hv'
      rw [encodeMap, hw, Option.some.inj hv']
  have hdecode (e : α × β) (he : e ∈ m.toList) :
      ((key' (key e.1)).bind fun k => (value' (value e.2)).map fun v => (k, v)) = some e := by
    rw [hkey e he, hvalue e he]
    rfl
  obtain ⟨entries, hentries, hiff⟩ := exists_mapM
    (f := fun p : γ × δ => (key' p.1).bind fun k => (value' p.2).map fun v => (k, v))
    (l := (encodeMap key value m).toList) fun p hp => by
      obtain ⟨e, he, rfl⟩ := (hmem p).mp hp
      exact ⟨e, hdecode e he⟩
  rw [decodeMap, hentries, Option.map_some, ofList_eq_of_mem]
  intro e
  rw [hiff]
  constructor
  · rintro ⟨p, hp, hpe⟩
    obtain ⟨e', he', rfl⟩ := (hmem p).mp hp
    rw [hdecode e' he'] at hpe
    rwa [← Option.some.inj hpe]
  · intro he
    exact ⟨_, (hmem _).mpr ⟨e, he, rfl⟩, hdecode e he⟩

end TgWsProxy.Core
