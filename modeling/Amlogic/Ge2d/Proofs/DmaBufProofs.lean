import Amlogic.Ge2d.DmaBuf

/-!
# GE2D: the memory of the dma-bufs is released once

The reference count of a buffer is the number of its holders: the owner, until it frees the buffer, and the dma-bufs
that are not released. So the memory goes back with the last of them. This needs a free entry for every
request, since the path without one works on a table it does not have, and an owner that frees a buffer
once: a second free takes away the reference of a dma-buf.
-/

namespace Amlogic.Ge2d

open DmaEvent Heap DmaState

open CodecMem (CInt pageAlign)

/-! ## Holders -/

def openDbufs (dbufs : Heap Nat) (buf : Nat) : Nat := dbufs.total fun b => if b = buf then 1 else 0

/-- Who has a reference to the buffer: the owner and the dma-bufs. -/
def DmaState.holders (s : DmaState) (buf : Nat) : Nat :=
  (if free buf ∈ s.log then 0 else 1) + openDbufs s.dbufs buf

section OpenDbufs

variable {dbufs : Heap Nat} {d buf b : Nat}

theorem openDbufs_insert (h : d ∉ dbufs) :
    openDbufs (dbufs.insert d b) buf = openDbufs dbufs buf + if b = buf then 1 else 0 := by
  unfold openDbufs
  rw [total_insert_new _ h, Nat.add_comm]

theorem openDbufs_erase (buf : Nat) (h : dbufs.lookup d = some b) :
    openDbufs dbufs buf = openDbufs (dbufs.erase d) buf + if b = buf then 1 else 0 := by
  unfold openDbufs
  rw [total_erase _ h, Nat.add_comm]

theorem not_open_of_openDbufs (h : openDbufs dbufs buf = 0) : dbufs.lookup d ≠ some buf := by
  intro hd
  have := openDbufs_erase buf hd
  rw [if_pos rfl] at this
  omega

theorem openDbufs_eq_zero (h : ∀ d, dbufs.lookup d ≠ some buf) : openDbufs dbufs buf = 0 := by
  refine total_eq_zero _ ?_
  intro d b hd
  refine if_neg ?_
  rintro rfl
  exact h d hd

end OpenDbufs

/-! ## The invariant -/

def EntryOk (s : DmaState) (i : Nat) (e : AmlDmaBufPriv) : Prop :=
  e.alloc = e.memPriv.isSome ∧ ∀ buf, e.memPriv = some buf → ∃ b, s.bufs.lookup buf = some b ∧ b.index = i

structure BufOk (s : DmaState) (buf : Nat) (b : AmlDmaBuf) : Prop where
  priv : b.priv = true
  entry : ∃ e, s.gdBuffer[b.index]? = some e ∧ e.memPriv = some buf
  requested : request buf ∈ s.log
  kept : release buf ∉ s.log

def Finished (log : List DmaEvent) (buf : Nat) : Prop :=
  DmaEvent.free buf ∈ log ∧ ∀ i d, DmaEvent.export i buf d ∈ log → DmaEvent.close d ∈ log

/-- The invariant of the table. A buffer has as many references as holders, and `spare` more. -/
structure DmaState.Inv (s : DmaState) (spare : Nat → Nat) : Prop where
  length : s.gdBuffer.length = amlMaxDmabuf
  entry : ∀ i e, s.gdBuffer[i]? = some e → EntryOk s i e
  buf : ∀ buf b, s.bufs.lookup buf = some b → BufOk s buf b
  count : ∀ buf b, s.bufs.lookup buf = some b →
    b.refcount.toNat = s.holders buf + spare buf ∧ b.refcount.toNat ≠ 0
  live : ∀ d buf, s.dbufs.lookup d = some buf →
    ∃ b, s.bufs.lookup buf = some b ∧ DmaEvent.export b.index buf d ∈ s.log ∧ DmaEvent.close d ∉ s.log
  exported : ∀ i buf d, DmaEvent.export i buf d ∈ s.log →
    s.dbufs.lookup d = some buf ∨ close d ∈ s.log
  unique : ∀ i i' buf buf' d, DmaEvent.export i buf d ∈ s.log → DmaEvent.export i' buf' d ∈ s.log →
    i = i' ∧ buf = buf'
  gone : ∀ buf, request buf ∈ s.log → s.bufs.lookup buf = none →
    s.log.count (release buf) = 1 ∧ Finished s.log buf
  known : ∀ buf, release buf ∈ s.log ∨ free buf ∈ s.log ∨
    (∃ i d, DmaEvent.export i buf d ∈ s.log) → DmaEvent.request buf ∈ s.log

def spareOf (buf : Nat) : Nat → Nat := fun p => if p = buf then 1 else 0

/-! ## A reference is dropped -/

section Put

variable {s : DmaState} {buf : Nat} {b : AmlDmaBuf} {e : AmlDmaBufPriv}

@[simp] theorem deref_some {α : Type} (a : α) : deref (some a) = pure a := rfl

theorem amlDmaPut_keep (hb : s.bufs.lookup buf = some b) (href : b.refcount - 1 ≠ 0) :
    amlDmaPut buf s = .ok ((), { s with bufs := s.bufs.insert buf { b with refcount := b.refcount - 1 } }) := by
  unfold amlDmaPut
  rw [run_get_bind, hb, deref_some, pure_bind, run_modify_bind, if_pos href]
  rfl

theorem amlDmaPut_last (hb : s.bufs.lookup buf = some b) (href : b.refcount - 1 = 0) (hpriv : b.priv = true)
    (he : s.gdBuffer[b.index]? = some e) :
    amlDmaPut buf s = .ok ((), { s with
      bufs := s.bufs.erase buf
      gdBuffer := s.gdBuffer.set b.index { e with memPriv := none, index := 0, alloc := false }
      log := s.log ++ [.release buf] }) := by
  unfold amlDmaPut
  rw [run_get_bind, hb, deref_some, pure_bind, run_modify_bind, if_neg (not_not.mpr href)]
  unfold record clearDmaBuffer
  rw [run_modify_bind, if_pos hpriv]
  simp only [bind_assoc]
  rw [run_get_bind, he, deref_some, pure_bind, run_modify_bind, run_modify]
  simp only [erase_insert]

end Put

/-! ## What each change keeps -/

section Keep

variable {s : DmaState} {buf d i : Nat} {b b' : AmlDmaBuf} {e e' : AmlDmaBufPriv} {sp sp' : Nat → Nat} {ev : DmaEvent}

theorem BufOk.append {dbufs : Heap Nat} (h : BufOk s buf b) (hev : ev ≠ .release buf) :
    BufOk { s with dbufs := dbufs, log := s.log ++ [ev] } buf b :=
  ⟨h.priv, h.entry, List.mem_append_left _ h.requested, by simp [h.kept, hev.symm]⟩

theorem Finished.append {log : List DmaEvent} (h : Finished log buf) (hev : ∀ i d, ev ≠ .export i buf d) :
    Finished (log ++ [ev]) buf := by
  refine ⟨List.mem_append_left _ h.1, fun i d hexp => List.mem_append_left _ (h.2 i d ?_)⟩
  simpa [(hev i d).symm] using hexp

theorem DmaState.Inv.gone_append (h : s.Inv sp) (hreq : request buf ∈ s.log)
    (hnone : s.bufs.lookup buf = none) (hrelease : ev ≠ .release buf) (hexport : ∀ i d, ev ≠ .export i buf d) :
    (s.log ++ [ev]).count (.release buf) = 1 ∧ Finished (s.log ++ [ev]) buf := by
  obtain ⟨hcnt, hfin⟩ := h.gone buf hreq hnone
  exact ⟨by simp [hcnt, hrelease], hfin.append hexport⟩

theorem DmaState.Inv.known_append (h : s.Inv sp)
    (hev : ∀ p, DmaEvent.release p = ev ∨ DmaEvent.free p = ev ∨ (∃ i d, DmaEvent.export i p d = ev) →
      request p ∈ s.log) (p : Nat)
    (hp : release p ∈ s.log ++ [ev] ∨ free p ∈ s.log ++ [ev] ∨
      ∃ i d, DmaEvent.export i p d ∈ s.log ++ [ev]) : DmaEvent.request p ∈ s.log ++ [ev] := by
  have := h.known p
  grind

theorem DmaState.Inv.replace (h : s.Inv sp) (hb : s.bufs.lookup buf = some b) (hpriv : b'.priv = b.priv)
    (hindex : b'.index = b.index) (hcount : b'.refcount.toNat = s.holders buf + sp' buf ∧ b'.refcount.toNat ≠ 0)
    (hsp : ∀ p, p ≠ buf → sp' p = sp p) : ({ s with bufs := s.bufs.insert buf b' } : DmaState).Inv sp' := by
  have hback : ∀ p c, s.bufs.lookup p = some c →
      ∃ c', (s.bufs.insert buf b').lookup p = some c' ∧ c'.index = c.index := by
    intro p c hp
    by_cases hpb : p = buf
    · subst hpb
      rw [hb] at hp
      cases hp
      exact ⟨b', AList.lookup_insert _, hindex⟩
    · exact ⟨c, (AList.lookup_insert_ne hpb).trans hp, rfl⟩
  refine { h with entry := ?_, buf := ?_, count := ?_, live := ?_, gone := ?_ }
  · intro i e he
    obtain ⟨halloc, hmem⟩ := h.entry i e he
    refine ⟨halloc, fun p hp => ?_⟩
    obtain ⟨c, hc, hi⟩ := hmem p hp
    obtain ⟨c', hc', hi'⟩ := hback p c hc
    exact ⟨c', hc', hi'.trans hi⟩
  · intro p c hp
    rcases lookup_insert_iff.mp hp with ⟨rfl, rfl⟩ | ⟨-, hp⟩
    · obtain ⟨h1, h2, h3, h4⟩ := h.buf p b hb
      exact ⟨hpriv.trans h1, hindex ▸ h2, h3, h4⟩
    · obtain ⟨h1, h2, h3, h4⟩ := h.buf p c hp
      exact ⟨h1, h2, h3, h4⟩
  · intro p c hp
    rcases lookup_insert_iff.mp hp with ⟨rfl, rfl⟩ | ⟨hne, hp⟩
    · exact hcount
    · rw [hsp p hne]
      exact h.count p c hp
  · intro d p hd
    obtain ⟨c, hc, hexp, hclose⟩ := h.live d p hd
    obtain ⟨c', hc', hi'⟩ := hback p c hc
    exact ⟨c', hc', hi' ▸ hexp, hclose⟩
  · intro p hreq hnone
    exact h.gone p hreq (by simpa using hnone : _ ∧ _).2

theorem DmaState.Inv.free (h : s.Inv 0) (hb : s.bufs.lookup buf = some b) (hnew : free buf ∉ s.log) :
    ({ s with log := s.log ++ [.free buf] } : DmaState).Inv (spareOf buf) := by
  refine ⟨h.length, h.entry, fun p c hp => (h.buf p c hp).append (by simp), ?_, ?_, by simpa using h.exported,
    by simpa using h.unique, ?_, h.known_append (by simp [(h.buf buf b hb).requested])⟩
  · intro p c hp
    obtain ⟨hcnt, hpos⟩ := h.count p c hp
    refine ⟨hcnt.trans ?_, hpos⟩
    unfold holders spareOf
    by_cases hpb : p = buf
    · subst hpb
      simp [hnew, Nat.add_comm]
    · simp [hpb]
  · simpa using h.live
  · exact fun p hreq hnone => h.gone_append (by simpa using hreq) hnone (by simp) (by simp)

theorem DmaState.Inv.close (h : s.Inv 0) (hd : s.dbufs.lookup d = some buf) :
    ({ s with dbufs := s.dbufs.erase d, log := s.log ++ [.close d] } : DmaState).Inv (spareOf buf) := by
  refine ⟨h.length, h.entry, fun p c hp => (h.buf p c hp).append (by simp), ?_, ?_, ?_, by simpa using h.unique, ?_,
    h.known_append (by simp)⟩
  · intro p c hp
    obtain ⟨hcnt, hpos⟩ := h.count p c hp
    refine ⟨hcnt.trans ?_, hpos⟩
    have := openDbufs_erase p hd
    simp only [holders, spareOf, this, List.mem_append, List.mem_singleton, reduceCtorEq, or_false,
      eq_comm (a := p), Pi.zero_apply]
    omega
  · intro d' p hd'
    obtain ⟨hne, hd'⟩ := lookup_erase_iff.mp hd'
    obtain ⟨c, hc, hexp, hclose⟩ := h.live d' p hd'
    exact ⟨c, hc, by simp [hexp], by simp [hclose, hne]⟩
  · intro i p d' hexp
    by_cases hne : d' = d
    · exact .inr (by simp [hne])
    · rcases h.exported i p d' (by simpa using hexp) with hd' | hclose
      · exact .inl (lookup_erase_iff.mpr ⟨hne, hd'⟩)
      · exact .inr (List.mem_append_left _ hclose)
  · exact fun p hreq hnone => h.gone_append (by simpa using hreq) hnone (by simp) (by simp)

theorem DmaState.Inv.export (h : s.Inv (spareOf buf)) (hb : s.bufs.lookup buf = some b) (hd : d ∉ s.dbufs)
    (hclosed : DmaEvent.close d ∉ s.log) :
    ({ s with dbufs := s.dbufs.insert d buf, log := s.log ++ [.export b.index buf d] } : DmaState).Inv 0 := by
  have hnew : ∀ i p, DmaEvent.export i p d ∉ s.log := by
    intro i p hexp
    rcases h.exported i p d hexp with hlive | hclose
    · exact ne_of_lookup hd hlive rfl
    · exact hclosed hclose
  refine ⟨h.length, h.entry, fun p c hp => (h.buf p c hp).append (by simp), ?_, ?_, ?_, ?_, ?_,
    h.known_append (by simp [(h.buf buf b hb).requested])⟩
  · intro p c hp
    obtain ⟨hcnt, hpos⟩ := h.count p c hp
    refine ⟨hcnt.trans ?_, hpos⟩
    simp only [holders, spareOf, openDbufs_insert hd, List.mem_append, List.mem_singleton, reduceCtorEq,
      or_false, eq_comm (a := p), Pi.zero_apply]
    omega
  · intro d' p hd'
    rcases lookup_insert_iff.mp hd' with ⟨rfl, rfl⟩ | ⟨hne, hd'⟩
    · exact ⟨b, hb, by simp, by simp [hclosed]⟩
    · obtain ⟨c, hc, hexp, hclose⟩ := h.live d' p hd'
      exact ⟨c, hc, by simp [hexp], by simp [hclose]⟩
  · intro i p d' hexp
    rcases List.mem_append.mp hexp with hexp | hexp
    · rcases h.exported i p d' hexp with hd' | hclose
      · exact .inl (lookup_insert_iff.mpr (Or.inr ⟨(ne_of_lookup hd hd'), hd'⟩))
      · exact .inr (List.mem_append_left _ hclose)
    · obtain ⟨rfl, rfl, rfl⟩ := export.inj (List.mem_singleton.mp hexp)
      exact .inl (AList.lookup_insert _)
  · intro i i' p p' d' h1 h2
    simp only [List.mem_append, List.mem_singleton, export.injEq] at h1 h2
    rcases h1 with old | ⟨rfl, rfl, rfl⟩ <;> rcases h2 with old' | ⟨rfl, rfl, heq⟩
    · exact h.unique i i' p p' d' old old'
    · exact absurd (heq ▸ old) (hnew i p)
    · exact absurd old' (hnew i' p')
    · exact ⟨rfl, rfl⟩
  · intro p hreq hgone
    refine h.gone_append (by simpa using hreq) hgone (by simp) fun i d hev => ?_
    obtain ⟨-, rfl, -⟩ := export.inj hev
    rw [hb] at hgone
    cases hgone

theorem DmaState.Inv.setEntry (h : s.Inv sp) (he : s.gdBuffer[i]? = some e) (hmem : e'.memPriv = e.memPriv)
    (halloc : e'.alloc = e.alloc) : ({ s with gdBuffer := s.gdBuffer.set i e' } : DmaState).Inv sp := by
  have hlen : i < s.gdBuffer.length := (List.getElem?_eq_some_iff.mp he).1
  refine { h with length := by simp [h.length], entry := ?_, buf := ?_ }
  · intro j c hc
    by_cases hij : i = j
    · subst hij
      rw [List.getElem?_set_self hlen] at hc
      cases hc
      have := h.entry i e he
      unfold EntryOk at this ⊢
      rw [hmem, halloc]
      exact this
    · rw [List.getElem?_set_ne hij] at hc
      exact h.entry j c hc
  · intro p c hp
    obtain ⟨h1, ⟨x, hx, hxp⟩, h3, h4⟩ := h.buf p c hp
    refine ⟨h1, ?_, h3, h4⟩
    by_cases hij : i = c.index
    · subst hij
      rw [he] at hx
      cases hx
      exact ⟨e', List.getElem?_set_self hlen, hmem.trans hxp⟩
    · exact ⟨x, (List.getElem?_set_ne hij).trans hx, hxp⟩

theorem DmaState.Inv.last (h : s.Inv (spareOf buf)) (hb : s.bufs.lookup buf = some b) (href : b.refcount.toNat = 1)
    (he : s.gdBuffer[b.index]? = some e) :
    ({ s with
      bufs := s.bufs.erase buf
      gdBuffer := s.gdBuffer.set b.index { e with memPriv := none, index := 0, alloc := false }
      log := s.log ++ [.release buf] } : DmaState).Inv 0 := by
  have hlen : b.index < s.gdBuffer.length := (List.getElem?_eq_some_iff.mp he).1
  have hzero : s.holders buf = 0 := by
    have := (h.count buf b hb).1
    rw [spareOf, if_pos rfl] at this
    omega
  unfold holders at hzero
  have hfree : DmaEvent.free buf ∈ s.log := by
    by_contra hf
    rw [if_neg hf] at hzero
    omega
  have hopen : ∀ d, s.dbufs.lookup d ≠ some buf := fun d => not_open_of_openDbufs (by omega)
  refine ⟨by simp [h.length], ?_, ?_, ?_, ?_, by simpa using h.exported, by simpa using h.unique, ?_,
    h.known_append (by simp [(h.buf buf b hb).requested])⟩
  · intro j c hc
    by_cases hij : b.index = j
    · subst hij
      rw [List.getElem?_set_self hlen] at hc
      cases hc
      exact ⟨rfl, nofun⟩
    · rw [List.getElem?_set_ne hij] at hc
      obtain ⟨halloc, hmem⟩ := h.entry j c hc
      refine ⟨halloc, fun p hp => ?_⟩
      obtain ⟨x, hx, hxi⟩ := hmem p hp
      have hpb : p ≠ buf := by
        rintro rfl
        rw [hb] at hx
        cases hx
        exact hij hxi
      exact ⟨x, lookup_erase_iff.mpr ⟨hpb, hx⟩, hxi⟩
  · intro p c hp
    obtain ⟨hpb, hp⟩ := lookup_erase_iff.mp hp
    obtain ⟨h1, ⟨x, hx, hxp⟩, h3, h4⟩ := h.buf p c hp
    refine ⟨h1, ⟨x, ?_, hxp⟩, by simp [h3], by simp [h4, hpb]⟩
    have hij : b.index ≠ c.index := by
      intro hij
      obtain ⟨y, hy, hyp⟩ := (h.buf buf b hb).entry
      rw [hij, hx] at hy
      cases hy
      exact hpb (Option.some.inj (hxp.symm.trans hyp))
    exact (List.getElem?_set_ne hij).trans hx
  · intro p c hp
    obtain ⟨hpb, hp⟩ := lookup_erase_iff.mp hp
    simpa [holders, spareOf, hpb] using h.count p c hp
  · intro d p hd
    have hpb : p ≠ buf := by
      rintro rfl
      exact hopen d hd
    obtain ⟨c, hc, hexp, hclose⟩ := h.live d p hd
    exact ⟨c, lookup_erase_iff.mpr ⟨hpb, hc⟩, by simp [hexp], by simp [hclose]⟩
  · intro p hreq hnone
    by_cases hpb : p = buf
    · subst hpb
      refine ⟨by simp [List.count_eq_zero.mpr (h.buf p b hb).kept], by simp [hfree], fun i d hexp => ?_⟩
      rcases h.exported i p d (by simpa using hexp) with hd | hclose
      · exact absurd hd (hopen d)
      · simp [hclose]
    · exact h.gone_append (by simpa using hreq) ((AList.lookup_erase_ne hpb).symm.trans hnone)
        (by simp [Ne.symm hpb]) (by simp)

theorem DmaState.Inv.request (h : s.Inv 0) (he : s.gdBuffer[i]? = some e) (hempty : e.alloc = false)
    (hbuf : buf ∉ s.bufs) (hnew : request buf ∉ s.log) (hpriv : b.priv = true) (hindex : b.index = i)
    (href : b.refcount.toNat = 1) :
    ({ s with
      bufs := s.bufs.insert buf b
      gdBuffer := s.gdBuffer.set i { e with memPriv := some buf, index := i, alloc := true }
      log := s.log ++ [.request buf] } : DmaState).Inv 0 := by
  subst hindex
  have hlen : b.index < s.gdBuffer.length := (List.getElem?_eq_some_iff.mp he).1
  have hunknown := mt (h.known buf) hnew
  simp only [not_or, not_exists] at hunknown
  obtain ⟨hrelease, hfree, hexport⟩ := hunknown
  -- the entry was nobody's
  have hnobody : ∀ p c, s.bufs.lookup p = some c → b.index ≠ c.index := by
    intro p c hp hi
    obtain ⟨x, hx, hxp⟩ := (h.buf p c hp).entry
    rw [← hi, he] at hx
    cases hx
    have := (h.entry _ _ he).1
    rw [hxp, hempty] at this
    cases this
  refine ⟨by simp [h.length], ?_, ?_, ?_, ?_, by simpa using h.exported, by simpa using h.unique, ?_,
    h.known_append (by simp)⟩
  · intro j c hc
    by_cases hij : b.index = j
    · subst hij
      rw [List.getElem?_set_self hlen] at hc
      cases hc
      refine ⟨rfl, fun p hp => ?_⟩
      cases hp
      exact ⟨b, AList.lookup_insert _, rfl⟩
    · rw [List.getElem?_set_ne hij] at hc
      obtain ⟨halloc, hmem⟩ := h.entry j c hc
      refine ⟨halloc, fun p hp => ?_⟩
      obtain ⟨x, hx, hxi⟩ := hmem p hp
      exact ⟨x, lookup_insert_iff.mpr (Or.inr ⟨ne_of_lookup hbuf hx, hx⟩), hxi⟩
  · intro p c hp
    rcases lookup_insert_iff.mp hp with ⟨rfl, rfl⟩ | ⟨hne, hp⟩
    · exact ⟨hpriv, ⟨_, List.getElem?_set_self hlen, rfl⟩, by simp, by simp [hrelease]⟩
    · obtain ⟨h1, ⟨x, hx, hxp⟩, h3, h4⟩ := h.buf p c hp
      exact ⟨h1, ⟨x, (List.getElem?_set_ne (hnobody p c hp)).trans hx, hxp⟩, by simp [h3], by simp [h4]⟩
  · intro p c hp
    rcases lookup_insert_iff.mp hp with ⟨rfl, rfl⟩ | ⟨hne, hp⟩
    · refine ⟨?_, by omega⟩
      have hopen : openDbufs s.dbufs p = 0 := by
        refine openDbufs_eq_zero fun d hd => ?_
        obtain ⟨x, -, hexp, -⟩ := h.live d p hd
        exact hexport _ _ hexp
      simp [holders, hfree, hopen, href]
    · simpa [holders] using h.count p c hp
  · intro d p hd
    obtain ⟨c, hc, hexp, hclose⟩ := h.live d p hd
    exact ⟨c, lookup_insert_iff.mpr (Or.inr ⟨ne_of_lookup hbuf hc, hc⟩), by simp [hexp], by simp [hclose]⟩
  · intro p hreq hnone
    have hpb : p ≠ buf := by
      rintro rfl
      rw [AList.lookup_insert] at hnone
      cases hnone
    exact h.gone_append (by simpa [hpb] using hreq) ((AList.lookup_insert_ne hpb).symm.trans hnone) (by simp) (by simp)

end Keep

/-! ## The calls -/

section Calls

variable {s : DmaState} {buf d i : Nat} {b : AmlDmaBuf} {e : AmlDmaBufPriv}

theorem amlDmaPut_ok (h : s.Inv (spareOf buf)) (hb : s.bufs.lookup buf = some b) :
    ∃ s', amlDmaPut buf s = .ok ((), s') ∧ s'.Inv 0 ∧ ∀ i, i ≠ b.index → s'.gdBuffer[i]? = s.gdBuffer[i]? := by
  obtain ⟨hcnt, -⟩ := h.count buf b hb
  rw [spareOf, if_pos rfl] at hcnt
  by_cases href : b.refcount - 1 = 0
  · obtain ⟨e, he, -⟩ := (h.buf buf b hb).entry
    refine ⟨_, amlDmaPut_last hb href (h.buf buf b hb).priv he, h.last hb (by bv_omega) he, fun i hi => ?_⟩
    exact List.getElem?_set_ne (Ne.symm hi)
  · refine ⟨_, amlDmaPut_keep hb href, ?_, fun i _ => rfl⟩
    refine h.replace hb rfl rfl ⟨?_, ?_⟩ fun p hp => ?_
    · show (b.refcount - 1).toNat = s.holders buf + 0
      bv_omega
    · bv_omega
    · exact (if_neg hp).symm

theorem free_ok (h : s.Inv 0) (hb : s.bufs.lookup buf = some b) (hnew : free buf ∉ s.log) :
    ∃ s', (do record (.free buf); amlDmaPut buf : Prog DmaState Unit) s = .ok ((), s') ∧ s'.Inv 0 ∧
      ∀ i, i ≠ b.index → s'.gdBuffer[i]? = s.gdBuffer[i]? :=
  amlDmaPut_ok (h.free hb hnew) hb

theorem amlDmabufOpsRelease_ok (h : s.Inv 0) (hd : s.dbufs.lookup d = some buf) (hb : s.bufs.lookup buf = some b) :
    ∃ s', amlDmabufOpsRelease d s = .ok ((), s') ∧ s'.Inv 0 ∧
      ∀ i, i ≠ b.index → s'.gdBuffer[i]? = s.gdBuffer[i]? := by
  unfold amlDmabufOpsRelease
  rw [run_get_bind, hd, deref_some, pure_bind]
  exact amlDmaPut_ok (h.close hd) hb

def DmaState.bufAt (s : DmaState) (index : CInt) : Option Nat := do
  let i ← indexOf index
  let e ← s.gdBuffer[i]?
  e.memPriv

/-- There is an entry for every new buffer, no buffer is freed twice, and no reference count overflows. -/
def DmaCall.Fair (s : DmaState) : DmaCall → Prop
  | .request len _ got => pageAlign len ≠ 0 → got ≠ none → ∃ e ∈ s.gdBuffer, e.alloc = false
  | .free index => ∀ buf ∈ s.bufAt index, DmaEvent.free buf ∉ s.log
  | .export index _ _ => ∀ buf ∈ s.bufAt index, ∀ b ∈ s.bufs.lookup buf, b.refcount + 1 ≠ 0
  | .close _ => True

theorem DmaState.bufAt_eq {index : CInt} (hi : indexOf index = some i) (he : s.gdBuffer[i]? = some e) :
    s.bufAt index = e.memPriv := by
  unfold bufAt
  rw [hi]
  show (s.gdBuffer[i]?.bind fun e => e.memPriv) = e.memPriv
  rw [he]
  rfl

theorem indexOf_lt {index : CInt} (hi : indexOf index = some i) : i < amlMaxDmabuf := by
  unfold indexOf at hi
  split_ifs at hi with hc
  cases hi
  have : index.toInt = index.toNat ∨ index.toInt < 0 := by
    rw [BitVec.toInt_eq_toNat_cond]
    split_ifs <;> omega
  omega

section

variable (h : s.Inv 0)
include h

theorem DmaState.Inv.entry_of_index {index : CInt} (hi : indexOf index = some i) :
    ∃ e, s.gdBuffer[i]? = some e ∧ (e.memPriv = none ∨
      ∃ buf b, e.memPriv = some buf ∧ s.bufs.lookup buf = some b ∧ b.index = i) := by
  have hlt : i < s.gdBuffer.length := h.length ▸ indexOf_lt hi
  refine ⟨s.gdBuffer[i], List.getElem?_eq_getElem hlt, ?_⟩
  obtain ⟨-, hmem⟩ := h.entry i _ (List.getElem?_eq_getElem hlt)
  cases hm : s.gdBuffer[i].memPriv with
  | none => exact .inl rfl
  | some buf =>
    obtain ⟨b, hb, hbi⟩ := hmem buf hm
    exact .inr ⟨buf, b, rfl, hb, hbi⟩

def CallOk (s : DmaState) (c : DmaCall) : Prop :=
  ∃ ret s', c.exec s = .ok (ret, s') ∧ s'.Inv 0 ∧ ∀ i, c.addresses s ≠ some i → s'.gdBuffer[i]? = s.gdBuffer[i]?

theorem callOk_free {index : CInt} (hfair : (DmaCall.free index).Fair s) :
    CallOk s (.free index) := by
  show ∃ ret s', ge2dDmaBufferFree index s = .ok (ret, s') ∧ _
  unfold ge2dDmaBufferFree
  cases hi : indexOf index with
  | none => exact ⟨_, s, rfl, h, fun _ _ => rfl⟩
  | some i =>
    obtain ⟨e, he, hmem⟩ := h.entry_of_index hi
    dsimp only
    rw [run_get_bind, he, deref_some, pure_bind]
    rcases hmem with hnone | ⟨buf, b, hbuf, hb, hbi⟩
    · rw [hnone]
      exact ⟨_, s, rfl, h, fun _ _ => rfl⟩
    · obtain ⟨s', hrun, hinv, hframe⟩ := free_ok h hb (hfair buf ((bufAt_eq hi he).trans hbuf))
      rw [hbuf]
      dsimp only
      rw [← bind_assoc, run_bind_of_ok hrun]
      refine ⟨0, s', rfl, hinv, fun j hj => hframe j ?_⟩
      rintro rfl
      exact hj (hbi ▸ hi)

theorem DmaState.Inv.addresses_close (hexp : DmaEvent.export i buf d ∈ s.log) :
    DmaCall.addresses s (.close d) = some i := by
  cases hfind : DmaCall.addresses s (.close d) with
  | none =>
    have := List.findSome?_eq_none_iff.mp hfind _ hexp
    simp at this
  | some j =>
    obtain ⟨ev, hev, hj⟩ := List.exists_of_findSome?_eq_some hfind
    cases ev with
    | «export» i' p d' =>
      simp only [Option.ite_none_right_eq_some, Option.some.injEq] at hj
      obtain ⟨rfl, rfl⟩ := hj
      rw [(h.unique _ _ _ _ _ hev hexp).1]
    | request | free | close | release => cases hj

theorem getDmabuf_ok (hb : s.bufs.lookup buf = some b) (hvaddr : b.vaddr = true)
    (hover : b.refcount + 1 ≠ 0) (hd : d ∉ s.dbufs) (hclosed : close d ∉ s.log) :
    ∃ s' b', getDmabuf b.index buf (some d) s = .ok (some d, s') ∧ s'.Inv 0 ∧ s'.gdBuffer = s.gdBuffer ∧
      s'.dbufs.lookup d = some buf ∧ s'.bufs.lookup buf = some b' ∧ b'.index = b.index := by
  have hcnt := h.count buf b hb
  have hinv : ({ s with bufs := s.bufs.insert buf { b with refcount := b.refcount + 1 } } : DmaState).Inv
      (spareOf buf) := by
    refine h.replace hb rfl rfl ⟨?_, ?_⟩ fun p hp => if_neg hp
    · rw [spareOf, if_pos rfl]
      have := hcnt.1
      simp only [Pi.zero_apply] at this
      bv_omega
    · bv_omega
  refine ⟨_, _, ?_, hinv.export (AList.lookup_insert _) hd hclosed, rfl, AList.lookup_insert _,
    AList.lookup_insert _, rfl⟩
  unfold getDmabuf
  rw [run_get_bind, hb, deref_some, pure_bind, hvaddr]
  rfl

theorem callOk_export {index fd : CInt} {dbuf : Option Nat} (hposs : (DmaCall.export index dbuf fd).Possible s)
    (hfair : (DmaCall.export index dbuf fd).Fair s) : CallOk s (.export index dbuf fd) := by
  show ∃ ret s', ge2dDmaBufferExport index dbuf fd s = .ok (ret, s') ∧ _
  unfold ge2dDmaBufferExport
  cases hi : indexOf index with
  | none => exact ⟨_, s, rfl, h, fun _ _ => rfl⟩
  | some i =>
    obtain ⟨e, he, hmem⟩ := h.entry_of_index hi
    dsimp only
    rw [run_get_bind, he, deref_some, pure_bind]
    rcases hmem with hnone | ⟨buf, b, hbuf, hb, rfl⟩
    · rw [hnone]
      exact ⟨_, s, rfl, h, fun _ _ => rfl⟩
    rw [hbuf]
    dsimp only
    by_cases hmade : b.vaddr = true ∧ dbuf ≠ none
    · obtain ⟨hvaddr, hdbuf⟩ := hmade
      obtain ⟨d, rfl⟩ := Option.ne_none_iff_exists'.mp hdbuf
      obtain ⟨s1, b', hrun, hinv, htable, hd, hb', hbi⟩ :=
        getDmabuf_ok h hb hvaddr (hfair buf ((bufAt_eq hi he).trans hbuf) b hb) hposs.1 hposs.2
      rw [run_bind_of_ok hrun]
      dsimp only
      have hne : ∀ j, DmaCall.addresses s (.export index (some d) fd) ≠ some j → j ≠ b.index := by
        rintro j hj rfl
        exact hj hi
      by_cases hfd : fd.toInt < 0
      · obtain ⟨s2, hrun2, hinv2, hframe⟩ := amlDmabufOpsRelease_ok hinv hd hb'
        rw [if_pos hfd, run_bind_of_ok hrun2]
        exact ⟨fd, s2, rfl, hinv2, fun j hj => (hframe j (hbi ▸ hne j hj)).trans (by rw [htable])⟩
      · rw [if_neg hfd, run_get_bind, htable, he, deref_some, pure_bind, run_modify_bind]
        refine ⟨0, _, rfl, hinv.setEntry (e := e) (by rw [htable]; exact he) rfl rfl, fun j hj => ?_⟩
        rw [htable]
        exact List.getElem?_set_ne (Ne.symm (hne j hj))
    · have hrun : getDmabuf b.index buf dbuf s = .ok (none, s) := by
        unfold getDmabuf
        rw [run_get_bind, hb, deref_some, pure_bind]
        cases hv : b.vaddr with
        | false => rfl
        | true =>
          have : dbuf = none := by
            by_contra hne
            exact hmade ⟨hv, hne⟩
          rw [this]
          rfl
      rw [run_bind_of_ok hrun]
      exact ⟨_, s, rfl, h, fun _ _ => rfl⟩

theorem callOk_request {len dmaDir : CInt} {got : Option (Nat × Bool)}
    (hposs : (DmaCall.request len dmaDir got).Possible s) (hfair : (DmaCall.request len dmaDir got).Fair s) :
    CallOk s (.request len dmaDir got) := by
  show ∃ ret s', ge2dDmaBufferAlloc len dmaDir got s = .ok (ret, s') ∧ _
  unfold ge2dDmaBufferAlloc
  by_cases hsize : pageAlign len = 0
  · rw [if_pos hsize]
    exact ⟨_, s, rfl, h, fun _ _ => rfl⟩
  rw [if_neg hsize]
  cases got with
  | none => exact ⟨_, s, rfl, h, fun _ _ => rfl⟩
  | some g =>
    obtain ⟨buf, mapped⟩ := g
    obtain ⟨hbuf, hnew⟩ := hposs
    obtain ⟨x, hx, hxa⟩ := hfair hsize (by simp)
    obtain ⟨i, hi⟩ : ∃ i, findEmptyDmaBuffer s.gdBuffer = some i := by
      refine Option.isSome_iff_exists.mp ?_
      rw [findEmptyDmaBuffer, List.findIdx?_isSome, List.any_eq_true]
      exact ⟨x, hx, by rw [hxa]; rfl⟩
    obtain ⟨hlt, hempty, -⟩ := List.findIdx?_eq_some_iff_getElem.mp hi
    have he : s.gdBuffer[i]? = some s.gdBuffer[i] := List.getElem?_eq_getElem hlt
    have hrun : amlDmaAlloc (pageAlign len) dmaDir (some (buf, mapped)) s = .ok (some buf, { s with
        bufs := s.bufs.insert buf ⟨mapped, pageAlign len, dmaDir, 0, 1, false⟩ }) := rfl
    rw [run_bind_of_ok hrun]
    dsimp only
    rw [run_get_bind]
    rw [hi]
    dsimp only
    rw [run_get_bind, AList.lookup_insert, deref_some, pure_bind, run_get_bind]
    dsimp only
    rw [he, deref_some, pure_bind, run_modify_bind]
    dsimp only
    rw [AList.insert_insert]
    refine ⟨0, _, rfl, h.request he (by simpa using hempty) hbuf hnew rfl rfl rfl, fun j hj => ?_⟩
    refine List.getElem?_set_ne ?_
    rintro rfl
    exact hj hi

theorem callOk {c : DmaCall} (hposs : c.Possible s) (hfair : c.Fair s) : CallOk s c := by
  cases c with
  | request len dmaDir got => exact callOk_request h hposs hfair
  | free index => exact callOk_free h hfair
  | «export» index dbuf fd => exact callOk_export h hposs hfair
  | close d =>
    obtain ⟨buf, hd⟩ := Option.isSome_iff_exists.mp (AList.lookup_isSome.mpr hposs)
    obtain ⟨b, hb, hexp, -⟩ := h.live d buf hd
    obtain ⟨s', hrun, hinv, hframe⟩ := amlDmabufOpsRelease_ok h hd hb
    refine ⟨0, s', run_bind_of_ok hrun, hinv, fun j hj => hframe j ?_⟩
    rintro rfl
    exact hj (h.addresses_close hexp)

end

end Calls

/-! ## Every run -/

/-- The memory of a requested buffer is released once when everybody is done with it, and not before. -/
def ReleasedOnce (log : List DmaEvent) : Prop :=
  ∀ buf, request buf ∈ log →
    (Finished log buf → log.count (.release buf) = 1) ∧ (¬Finished log buf → log.count (.release buf) = 0)

/-- The law of the table, when the next call is `allowed`: the memory is released once, and the call returns and
changes at most the entry that it addresses. -/
structure DmaLaw (allowed : DmaState → DmaCall → Prop) (s : DmaState) : Prop where
  once : ReleasedOnce s.log
  returns : ∀ c : DmaCall, c.Possible s → allowed s c →
    ∃ ret s', c.exec s = .ok (ret, s') ∧ ∀ i, c.addresses s ≠ some i → s'.gdBuffer[i]? = s.gdBuffer[i]?

section Law

variable {s : DmaState}

theorem inv_create : ge2dDmaBufferCreate.Inv 0 := by
  refine ⟨rfl, ?_, ?_, ?_, ?_, ?_, ?_, ?_, ?_⟩
  · intro i e he
    obtain rfl := (List.mem_replicate.mp (List.mem_of_getElem? he)).2
    exact ⟨rfl, nofun⟩
  · intro _ _ hp
    cases hp
  · intro _ _ hp
    cases hp
  · intro _ _ hd
    cases hd
  · intro _ _ _ hexp
    cases hexp
  · intro _ _ _ _ _ hexp
    cases hexp
  · intro _ hreq
    cases hreq
  · rintro _ (h | h | ⟨_, _, h⟩) <;> cases h

theorem inv_of_runs (h : Runs DmaCall.Step (fun s c => c.Fair s) ge2dDmaBufferCreate s) : s.Inv 0 := by
  refine h.keeps (P := fun s => s.Inv 0) ?_ inv_create
  rintro s c s' hinv hfair ⟨hposs, ret, hexec⟩
  obtain ⟨ret', s1, hexec', hinv', -⟩ := callOk hinv hposs hfair
  rw [hexec] at hexec'
  obtain ⟨-, rfl⟩ := Prod.mk.inj (Except.ok.inj hexec')
  exact hinv'

theorem DmaState.Inv.releasedOnce (h : s.Inv 0) : ReleasedOnce s.log := by
  intro buf hreq
  cases hb : s.bufs.lookup buf with
  | none =>
    obtain ⟨hcnt, hfin⟩ := h.gone buf hreq hb
    exact ⟨fun _ => hcnt, fun hnot => absurd hfin hnot⟩
  | some b =>
    refine ⟨?_, fun _ => List.count_eq_zero.mpr (h.buf buf b hb).kept⟩
    -- a buffer that is not released has a holder
    rintro ⟨hfree, hclosed⟩
    obtain ⟨hcnt, hpos⟩ := h.count buf b hb
    refine absurd hcnt ?_
    have hopen : openDbufs s.dbufs buf = 0 := by
      refine openDbufs_eq_zero fun d hd => ?_
      obtain ⟨x, -, hexp, hopen⟩ := h.live d buf hd
      exact hopen (hclosed _ _ hexp)
    simp only [holders, if_pos hfree, hopen, Pi.zero_apply]
    exact hpos

/-- If every request finds an empty entry, no buffer is freed twice and no reference count overflows, the law of the
table holds in every run. -/
theorem dma_table_law (h : Runs DmaCall.Step (fun s c => c.Fair s) ge2dDmaBufferCreate s) :
    DmaLaw (fun s c => c.Fair s) s := by
  have hinv := inv_of_runs h
  refine ⟨hinv.releasedOnce, fun c hposs hfair => ?_⟩
  obtain ⟨ret, s', hexec, -, hframe⟩ := callOk hinv hposs hfair
  exact ⟨ret, s', hexec, hframe⟩

instance (c : DmaCall) : Decidable (c.Possible s) :=
  match c with
  | .request _ _ (some (buf, _)) => inferInstanceAs (Decidable (buf ∉ s.bufs ∧ request buf ∉ s.log))
  | .request _ _ none => inferInstanceAs (Decidable True)
  | .export _ (some dbuf) _ => inferInstanceAs (Decidable (dbuf ∉ s.dbufs ∧ close dbuf ∉ s.log))
  | .export _ none _ => inferInstanceAs (Decidable True)
  | .free _ => inferInstanceAs (Decidable True)
  | .close dbuf => inferInstanceAs (Decidable (dbuf ∈ s.dbufs))

instance (c : DmaCall) : Decidable (c.Fair s) :=
  match c with
  | .request len _ got => inferInstanceAs (Decidable (pageAlign len ≠ 0 → got ≠ none → ∃ e ∈ s.gdBuffer, e.alloc = false))
  | .free index => inferInstanceAs (Decidable (∀ buf ∈ s.bufAt index, DmaEvent.free buf ∉ s.log))
  | .export index _ _ =>
    inferInstanceAs (Decidable (∀ buf ∈ s.bufAt index, ∀ b ∈ s.bufs.lookup buf, b.refcount + 1 ≠ 0))
  | .close _ => inferInstanceAs (Decidable True)

def DmaCall.after (s : DmaState) (c : DmaCall) : Option DmaState :=
  if c.Possible s then (c.exec s).toOption.map Prod.snd else none

theorem step_of_after {s' : DmaState} {c : DmaCall} (h : c.after s = some s') : c.Step s s' := by
  unfold DmaCall.after at h
  split_ifs at h with hposs
  cases hexec : c.exec s with
  | ok r =>
    rw [hexec] at h
    cases h
    exact ⟨hposs, r.1, hexec⟩
  | error e =>
    rw [hexec] at h
    cases h

def DmaCall.fairAfter (s : DmaState) (c : DmaCall) : Option DmaState := if c.Fair s then c.after s else none

theorem step_of_fairAfter {s' : DmaState} {c : DmaCall} (h : c.fairAfter s = some s') : c.Fair s ∧ c.Step s s' := by
  unfold DmaCall.fairAfter at h
  split_ifs at h with hfair
  exact ⟨hfair, step_of_after h⟩

def exportTwice : List DmaCall :=
  [.request 1 0 (some (0, true)), .export 0 (some 0) 3, .export 0 (some 1) 4, .free 0, .close 0, .close 1]

theorem dma_table_law_exportTwice :
    ∃ s, Runs DmaCall.Step (fun s c => c.Fair s) ge2dDmaBufferCreate s ∧ release 0 ∈ s.log ∧
      DmaLaw (fun s c => c.Fair s) s := by
  have hplay : (exportTwice.foldlM (fun s c => DmaCall.fairAfter s c) ge2dDmaBufferCreate).any
      (fun s => decide (release 0 ∈ s.log)) = true := by
    decide +kernel
  obtain ⟨s, hrun, hrel⟩ := Runs.of_play hplay step_of_fairAfter
  exact ⟨s, hrun, of_decide_eq_true hrel, dma_table_law hrun⟩

def fillTable : List DmaCall := (List.range amlMaxDmabuf).map fun n => .request 1 0 (some (n, true))

def freeTwice : List DmaCall := [.request 1 0 (some (0, true)), .export 0 (some 0) 3, .free 0, .free 0]

/-- A request for an entry of a full table follows a null pointer; and a second free of a buffer releases its memory
while it is exported. -/
theorem dma_table_unfair :
    (∃ s, Runs DmaCall.Step (fun _ _ => True) ge2dDmaBufferCreate s ∧
      ¬∀ c : DmaCall, c.Possible s → ∃ ret s', c.exec s = .ok (ret, s')) ∧
    ∃ s, Runs DmaCall.Step (fun _ _ => True) ge2dDmaBufferCreate s ∧ ¬ReleasedOnce s.log := by
  constructor
  · have hplay : (fillTable.foldlM (fun s c => DmaCall.after s c) ge2dDmaBufferCreate).any (fun s =>
        decide ((DmaCall.request 1 0 (some (32, true))).Possible s) &&
        !(DmaCall.exec (.request 1 0 (some (32, true))) s).toOption.isSome) = true := by
      decide +kernel
    obtain ⟨s, hrun, hs⟩ := Runs.of_play hplay fun h => ⟨trivial, step_of_after h⟩
    rw [Bool.and_eq_true] at hs
    obtain ⟨hposs, hfault⟩ := hs
    refine ⟨s, hrun, fun hall => ?_⟩
    obtain ⟨ret, s', hexec⟩ := hall _ (of_decide_eq_true hposs)
    rw [hexec] at hfault
    cases hfault
  · have hplay : (freeTwice.foldlM (fun s c => DmaCall.after s c) ge2dDmaBufferCreate).any (fun s =>
        decide (s.log = [.request 0, .export 0 0 0, .free 0, .free 0, .release 0])) = true := by
      decide +kernel
    obtain ⟨s, hrun, hs⟩ := Runs.of_play hplay fun h => ⟨trivial, step_of_after h⟩
    refine ⟨s, hrun, fun honce => ?_⟩
    rw [of_decide_eq_true hs] at honce
    have hzero := (honce 0 (by decide)).2 ?_
    · exact absurd hzero (by decide)
    · rintro ⟨-, hclosed⟩
      exact absurd (hclosed 0 0 (by decide)) (by decide)

/-- The reference count of a buffer that is not released is the number of its holders, the owner and the dma-bufs,
and the entry of the table with its index is in use and points to it. -/
theorem references_are_holders (h : Runs DmaCall.Step (fun s c => c.Fair s) ge2dDmaBufferCreate s) {buf : Nat}
    {b : AmlDmaBuf} (hl : s.bufs.lookup buf = some b) : b.refcount.toNat = s.holders buf ∧ 0 < s.holders buf ∧
      ∃ e, s.gdBuffer[b.index]? = some e ∧ e.alloc = true ∧ e.memPriv = some buf := by
  have hinv := inv_of_runs h
  obtain ⟨hcount, hpos⟩ := hinv.count buf b hl
  rw [Pi.zero_apply, add_zero] at hcount
  obtain ⟨e, he, hbuf⟩ := (hinv.buf buf b hl).entry
  refine ⟨hcount, by omega, e, he, ?_, hbuf⟩
  rw [(hinv.entry _ e he).1, hbuf]
  rfl

theorem references_are_holders_exported : ∃ s b, Runs DmaCall.Step (fun s c => c.Fair s) ge2dDmaBufferCreate s ∧
    s.bufs.lookup 0 = some b ∧ s.holders 0 = 2 ∧ b.refcount.toNat = s.holders 0 := by
  have hplay : ((exportTwice.take 4).foldlM (fun s c => DmaCall.fairAfter s c) ge2dDmaBufferCreate).any
      (fun s => decide (0 ∈ s.bufs ∧ s.holders 0 = 2)) = true := by
    decide +kernel
  obtain ⟨s, hrun, hs⟩ := Runs.of_play hplay step_of_fairAfter
  obtain ⟨hmem, hholders⟩ := of_decide_eq_true hs
  obtain ⟨b, hb⟩ := Option.isSome_iff_exists.mp (AList.lookup_isSome.mpr hmem)
  exact ⟨s, b, hrun, hb, hholders, (references_are_holders hrun hb).1⟩

end Law

end Amlogic.Ge2d
