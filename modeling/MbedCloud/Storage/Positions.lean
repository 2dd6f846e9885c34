import MbedCloud.Storage.RoundTrip

/-!
# Positions of the metadata

`esfs_create` adds up the positions of the values in 32 bits and records 16 of them, and `esfs_open` takes them from the
file. Nothing is refused if they do not fit.
-/

namespace MbedCloud.Storage

open Lib
open List hiding Vector

/-- The offset of the value with this index in the file. -/
def valueOffset (name : Bytes) (mode : Mode) (items : List TlvItem) (index : Nat) : Nat :=
  metaStart name mode items.length + (metaBytes (items.take index)).length

/-- The positions in the handle are the offsets of the values in the file. -/
def PositionsRight (name : Bytes) (mode : Mode) (items : List TlvItem) (h : Handle) : Prop :=
  ∀ index < items.length, ∃ item, h.tlvItems.toList[index]? = some item ∧ item.position.toNat = valueOffset name mode items index

theorem storedItems_getElem? (start : Nat) {items : List TlvItem} {index : Nat} (hindex : index < items.length) :
    ∃ item, (storedItems start items)[index]? = some item ∧
      item.position = UInt16.ofNat (start + (metaBytes (items.take index)).length) := by
  induction items generalizing start index with
  | nil => cases hindex
  | cons i items ih =>
    cases index with
    | zero => exact ⟨_, rfl, rfl⟩
    | succ index =>
      have hrest := ih (start + i.value.length) (Nat.lt_of_succ_lt_succ hindex)
      rwa [Nat.add_assoc, ← length_append] at hrest

section

variable {env : Env} {name : Bytes} {items : List TlvItem} {mode : Mode} {s s' : State}

theorem positionsRight_iff {h : Handle}
    (htlv : h.tlvItems.toList.take items.length = storedItems (metaStart name mode items.length) items) :
    PositionsRight name mode items h ↔ PositionsFit (metaStart name mode items.length) items := by
  refine forall₂_congr fun index hindex => ?_
  obtain ⟨item, hitem, hposition⟩ := storedItems_getElem? (metaStart name mode items.length) hindex
  rw [← htlv, getElem?_take_of_lt hindex] at hitem
  constructor
  · rintro ⟨item', hitem', hright⟩
    cases hitem.symm.trans hitem'
    have hlt := item.position.toNat_lt
    rwa [hright] at hlt
  · intro hfit
    exact ⟨item, hitem, by rw [hposition, toNat_ofNat_of_lt hfit, valueOffset]⟩

theorem positionsRight_of_create (hok : esfsCreate env name items mode s = (.ok (), s')) :
    PositionsRight name mode items s'.handle ↔ PositionsFit (metaStart name mode items.length) items := by
  obtain ⟨short, h, d, hcreated⟩ := esfsCreate_ok hok
  refine positionsRight_iff ?_
  rw [hcreated.writing.handle]
  exact hcreated.tlvItems

theorem positionsRight_of_create_iff (hok : esfsCreate env name items mode s = (.ok (), s')) :
    (PositionsRight name mode items s'.handle ∧
      ∀ bss s2, (do Proc.each (esfsWrite env) bss; esfsClose env) s' = (.ok (), s2) →
        ∀ t t' m, t.world.disk = s2.world.disk → Quiet env t.world → esfsOpen env name t = (.ok m, t') →
          PositionsRight name mode items t'.handle ∧
            t'.handle.file.map (·.pos) = some (valueOffset name mode items items.length)) ↔
      PositionsFit (metaStart name mode items.length) items := by
  have hright := positionsRight_of_create hok
  refine ⟨fun hp => hright.mp hp.1, fun hfit => ⟨hright.mpr hfit, ?_⟩⟩
  intro bss s2 hclose t t' m hdisk hquiet hopen
  obtain ⟨short, h, hs⟩ := esfsStore_ok (Proc.bind_eq_ok.mpr ⟨(), s', hok, hclose⟩)
  obtain ⟨s1, d, hcreated⟩ := hs.created
  by_cases hfactory : factoryVal mode = true → factoryVal h.esfsMode = true
  · have hcontent := hs.working hfactory
    rw [← hdisk] at hcontent
    obtain ⟨t'', hopen', h', hh', hr⟩ := esfsOpen_gives (hs.isFile hfit) rfl hquiet hcreated.hashed hcontent
    cases hopen.symm.trans hopen'
    rw [hr.handle]
    refine ⟨(positionsRight_iff hh'.tlvItems).mpr hfit, ?_⟩
    rw [valueOffset, take_length]
    rfl
  · obtain ⟨hm, hh⟩ := Classical.not_imp.mp hfactory
    have hnone := hs.absent hm (Bool.eq_false_iff.mpr hh)
    rw [← hdisk] at hnone
    exact absurd hopen (esfsOpen_absent hcreated.hashed hnone)

end

theorem ok_of_fst {x : Except EsfsError Unit × State} (h : x.1 = .ok ()) : x = (.ok (), x.2) := Prod.ext h rfl

/-- The first value ends at offset 65542, so that the position of the second one is recorded as 6. -/
def bigItems : List TlvItem := [⟨5, replicate 65519 1, by rw [length_replicate]; decide⟩, ⟨6, [1], by decide⟩]

theorem esfsCreate_newDevice : (esfsCreate device deviceName deviceItems 0 newDevice).1 = .ok () ∧
    (esfsCreate device deviceName bigItems 0 newDevice).1 = .ok () := by
  decide +kernel

theorem positionsRight_device :
    PositionsRight deviceName 0 deviceItems (esfsCreate device deviceName deviceItems 0 newDevice).2.handle :=
  ((positionsRight_of_create_iff (ok_of_fst esfsCreate_newDevice.1)).mpr (positionsFit_device 0)).1

theorem not_positionsRight_bigItems : ∃ s', esfsCreate device deviceName bigItems 0 newDevice = (.ok (), s') ∧
    ¬ PositionsRight deviceName 0 bigItems s'.handle := by
  have hok := ok_of_fst esfsCreate_newDevice.2
  refine ⟨_, hok, fun hright => ?_⟩
  have hfit := (positionsRight_of_create hok).mp hright 1 (by decide)
  have hlength : (metaBytes (bigItems.take 1)).length = 65519 := by
    rw [bigItems, take_succ_cons, take_zero, metaBytes_cons, length_append, length_replicate]
    rfl
  rw [hlength] at hfit
  revert hfit
  decide

end MbedCloud.Storage

