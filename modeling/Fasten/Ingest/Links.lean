import Fasten.Ingest.Spec

set_option autoImplicit false

/-! # Rows of linked chains are in no conflict

What the stored-row checks compare of a row is its `Link`. When the stored rows and the rows of a
batch all come from one set of linked chains, the checks find no conflict, whatever part of the
chains is stored and whatever part is delivered. -/

namespace Fasten

open Scan

@[simp] theorem AuditRow.link_stored (r : AuditRow) : r.stored.link = r.link := rfl

/-- The links of sealed rows of whole chains: ids and places are unique, and each link names the
    hash of the one right below it. -/
structure Linked (known : Set Link) : Prop where
  ids : ∀ a ∈ known, ∀ b ∈ known, a.id = b.id → a = b
  places : ∀ a ∈ known, ∀ b ∈ known, a.node = b.node → a.seq = b.seq → a = b
  links : ∀ a ∈ known, ∀ b ∈ known, a.node = b.node → b.seq = a.seq + 1 → b.prevHash = a.hash
  hashed : ∀ a ∈ known, a.hash ≠ ""

section

variable {check : AuditRow → Option Reason} {known : Set Link} {store : Store}
  {rows : List AuditRow}

theorem Linked.agrees (hknown : Linked known) (hstore : ∀ x ∈ store.rows, x.link ∈ known)
    {r : AuditRow} (hr : r.link ∈ known) : Agrees store r := by
  refine ⟨fun x hx hid => congrArg Link.hash (hknown.ids _ (hstore x hx) _ hr hid), fun hnew => ?_⟩
  rw [Store.neighbourConflict_eq_none_iff]
  refine ⟨Store.atSeq_eq_none_iff.2 (fun x hx hnode hseq => ?_), fun b hb => ?_, fun a ha => ?_⟩
  · exact hnew x hx (congrArg Link.id (hknown.places _ (hstore x hx) _ hr hnode hseq))
  · obtain ⟨hbmem, hnode, hseq⟩ := Store.mem_of_atSeq hb
    have hbhash : b.hash ≠ "" := hknown.hashed _ (hstore b hbmem)
    rw [if_neg hbhash]
    refine hknown.links _ (hstore b hbmem) _ hr hnode ?_
    show r.monotonicSeq = b.monotonicSeq + 1
    omega
  · obtain ⟨hamem, hnode, hseq⟩ := Store.mem_of_atSeq ha
    exact hknown.links _ hr _ (hstore a hamem) hnode.symm hseq

/-- Two kept rows with one id are one row. -/
theorem Linked.ids_kept (hknown : Linked known)
    (hrows : ∀ r ∈ rows, r.isSealed = true → r.link ∈ known) {r r' : AuditRow}
    (hr : KeptSealed rows r) (hr' : KeptSealed rows r') (hid : r.id = r'.id) : r = r' := by
  have hlink := hknown.ids _ (hrows r hr.mem hr.2) _ (hrows r' hr'.mem hr'.2) hid
  have hnode : r.sourceNodeId = r'.sourceNodeId := congrArg Link.node hlink
  have hkept := hr.1
  rw [hnode, hid, hr'.1, Option.some.injEq] at hkept
  exact hkept.symm

theorem sealedBelow_of_links (hstore : ∀ x ∈ store.rows, x.link ∈ known) {u : AuditRow}
    (hbelow : ∀ l ∈ known, l.node = u.sourceNodeId → u.monotonicSeq ≤ l.seq) :
    store.sealedBelow u.sourceNodeId u.monotonicSeq = false :=
  Store.sealedBelow_eq_false_iff.2 (fun x hx hnode _ => hbelow _ (hstore x hx) hnode)

/-- **No stored conflict.** -/
theorem Linked.batchConflict_eq_none (hknown : Linked known)
    (hstore : ∀ x ∈ store.rows, x.link ∈ known)
    (hrows : ∀ r ∈ rows, r.isSealed = true → r.link ∈ known)
    (hbelow : ∀ u ∈ rows, u.isSealed = false → ∀ l ∈ known, l.node = u.sourceNodeId →
      u.monotonicSeq ≤ l.seq) : batchConflict check store rows = none := by
  rw [eq_none_iff_noneBelow]
  intro d
  rw [noneBelow_batchConflict_iff]
  refine ⟨fun u hu _ => ?_, fun r hr r' hr' _ _ hid => ?_, fun r hr _ => ?_⟩
  · obtain ⟨hmem, hs, -⟩ := mem_skippedUnsealed.1 hu
    exact sealedBelow_of_links hstore (hbelow u hmem hs)
  · exact hknown.ids_kept hrows (mem_verifiedPrefix.1 hr).1 (mem_verifiedPrefix.1 hr').1 hid
  · have hkept := (mem_verifiedPrefix.1 hr).1
    exact hknown.agrees hstore (hrows r hkept.mem hkept.2)

end

end Fasten
