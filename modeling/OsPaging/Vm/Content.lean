import OsPaging.Vm.Coherent
import OsPaging.Vm.TlbCoherence

/-!
# What the process's pages hold

`userByte s va` is the byte that the process has at `va`: in the page's frame, or in its slot when
the page is swapped out, and nothing when the page has no entry. It does not mention which of the
two holds it, so swapping a page out, swapping it in to another frame and reloading the TLB leave
it alone. The proofs are about what could have been overwritten: a slot that is empty is no
page's, and a frame that was taken is no resident page's.

`Spares P others` is the same for processes that do not run: their frames and slots are not
written.
-/

namespace OsPaging.Vm

open OsPaging.Lib

/-- Byte `off` of the page of `e`. -/
def VmState.entryByte (s : VmState) (e : PtEntry) (off : Nat) : UInt8 :=
  if e.swapped then s.swapspace (e.swapIndex * pageSize + off)
  else s.ram (e.ppageIndex * pageSize + off)

/-- The process's byte at `va`. -/
def VmState.userByte (s : VmState) (va : Nat) : Option UInt8 :=
  (s.entries.find? (ptMatch va)).map fun e => s.entryByte e (va % pageSize)

theorem offset_lt (va : Nat) : va % pageSize < pageSize := Nat.mod_lt va (by decide)

/-- Different pages, or different offsets, are at different places. -/
theorem page_offset_inj {i j o o' : Nat} (ho : o < pageSize) (ho' : o' < pageSize)
    (h : i * pageSize + o = j * pageSize + o') : i = j ∧ o = o' := by
  simp only [pageSize] at *
  omega

theorem frame_offset (f : Nat) {off : Nat} (ho : off < pageSize) :
    (f * pageSize + off) / pageSize = f := by
  grind

theorem blit_other_page {dst src : Nat → UInt8} {i j p o : Nat} (ho : o < pageSize)
    (h : i ≠ j) : blit dst (j * pageSize) src p pageSize (i * pageSize + o) =
      dst (i * pageSize + o) := by
  refine blit_outside ?_
  simp only [pageSize] at *
  omega

/-! ## Other processes' pages -/

/-- `t` has the frames of `P` and the slots `others` as `s` has them. -/
structure Spares (P : Set Nat) (others : List Nat) (s t : VmState) : Prop where
  coremap : ∀ f ∈ P, t.coremap f = s.coremap f
  ram : ∀ f ∈ P, ∀ off < pageSize, t.ram (f * pageSize + off) = s.ram (f * pageSize + off)
  swap : ∀ i ∈ others, ∀ off < pageSize,
    t.swapspace (i * pageSize + off) = s.swapspace (i * pageSize + off)

namespace Spares

variable {P : Set Nat} {others : List Nat} {s s' s₁ t u : VmState} {f : Nat}

theorem refl (s : VmState) : Spares P others s s :=
  ⟨fun _ _ => rfl, fun _ _ _ _ => rfl, fun _ _ _ _ => rfl⟩

theorem trans (h : Spares P others s t) (h' : Spares P others t u) : Spares P others s u :=
  ⟨fun f hf => (h'.coremap f hf).trans (h.coremap f hf),
    fun f hf off ho => (h'.ram f hf off ho).trans (h.ram f hf off ho),
    fun i hi off ho => (h'.swap i hi off ho).trans (h.swap i hi off ho)⟩

theorem same (hc : t.coremap = s.coremap) (hr : t.ram = s.ram) (hs : t.swapspace = s.swapspace) :
    Spares P others s t :=
  ⟨fun _ _ => by rw [hc], fun _ _ _ _ => by rw [hr], fun _ _ _ _ => by rw [hs]⟩

/-- The slot that is written was empty, and the others' are occupied. -/
theorem swapOutVictim {victim : Int} (hsl : Slots others s)
    (ho : Vm.swapOutVictim s victim = .ok s') : Spares P others s s' := by
  obtain ⟨_, e, index, -, -, -, -, -, -, hempty, rfl⟩ := swapOutVictim_ok ho
  refine ⟨fun _ _ => rfl, fun _ _ _ _ => rfl, fun i hi off hoff => ?_⟩
  refine blit_other_page hoff fun he => ?_
  rw [← he, (hsl.full i (List.mem_append_right _ hi)).2] at hempty
  cases hempty

theorem taken (hsl : Slots others s) (ht : FrameTaken s f s₁) : Spares P others s s₁ := by
  obtain ⟨-, -, ⟨-, rfl⟩ | ⟨-, -, hout⟩⟩ := ht
  · exact .refl s₁
  · exact Spares.trans (t := { s with nextVictim := f + 1 }) (.same rfl rfl rfl)
      (.swapOutVictim (hsl.same rfl rfl) hout)

theorem modifyFrame (s : VmState) (hf : f ∉ P) (g : CoremapEntry → CoremapEntry) :
    Spares P others s (s.modifyFrame f g) := by
  refine ⟨fun j hj => ?_, fun _ _ _ _ => rfl, fun _ _ _ _ => rfl⟩
  rw [VmState.modifyFrame_coremap, if_neg (by rintro rfl; exact hf hj)]

theorem link (s : VmState) (hf : f ∉ P) (vaddr : Nat) :
    Spares P others s (linkEntry s f vaddr) := by
  refine ⟨fun j hj => ?_, fun _ _ _ _ => rfl, fun _ _ _ _ => rfl⟩
  rw [linkEntry_coremap, if_neg (by rintro rfl; exact hf hj)]

theorem pagedIn (s : VmState) (hf : f ∉ P) (vaddr index : Nat) :
    Spares P others s (Vm.pagedIn s f vaddr index) := by
  refine ⟨fun j hj => ?_, fun j hj off hoff => ?_, fun _ _ _ _ => rfl⟩
  · rw [pagedIn_coremap, if_neg (by rintro rfl; exact hf hj)]
  · exact blit_other_page hoff (by rintro rfl; exact hf hj)

theorem update (s : VmState) {paddr : Nat} (hp : paddr / pageSize ∉ P) (v : UInt8) :
    Spares P others s { s with ram := Function.update s.ram paddr v } := by
  refine ⟨fun _ _ => rfl, fun f hf off hoff => ?_, fun _ _ _ _ => rfl⟩
  grind

end Spares

/-! ## The running process's pages -/

section UserByte

variable {P : Set Nat} {others : List Nat} {s s' s₁ t : VmState} {f vaddr va page : Nat}
  {e : PtEntry}

theorem userByte_of_mem (h : PtWf s.entries) (he : e ∈ s.entries) (hv : e.vaddr = pageFrame va) :
    s.userByte va = some (s.entryByte e (va % pageSize)) := by
  unfold VmState.userByte
  rw [h.search_some.mpr ⟨he, hv⟩]
  rfl

theorem userByte_none (h : PtWf s.entries) (he : ∀ e ∈ s.entries, e.vaddr ≠ pageFrame va) :
    s.userByte va = none := by
  unfold VmState.userByte
  rw [h.search_none.mpr he]
  rfl

theorem userByte_same (he : t.entries = s.entries) (hr : t.ram = s.ram)
    (hs : t.swapspace = s.swapspace) : t.userByte va = s.userByte va := by
  unfold VmState.userByte VmState.entryByte
  rw [he, hr, hs]

/-- Two tables with the same pages, each with the same bytes. -/
theorem userByte_congr (hs : PtWf s.entries) (ht : PtWf t.entries)
    (hv : t.entries.map PtEntry.vaddr = s.entries.map PtEntry.vaddr)
    (hb : ∀ e ∈ s.entries, ∃ e' ∈ t.entries, e'.vaddr = e.vaddr ∧
      ∀ off < pageSize, t.entryByte e' off = s.entryByte e off) :
    t.userByte va = s.userByte va := by
  cases hf : s.entries.find? (ptMatch va) with
  | none =>
    have hnone := hs.search_none.mp hf
    rw [userByte_none hs hnone, userByte_none ht]
    intro e' he' hve
    have hmem := List.mem_map_of_mem (f := PtEntry.vaddr) he'
    grind
  | some e =>
    obtain ⟨he, hve⟩ := hs.search_some.mp hf
    obtain ⟨e', he', hv', hbytes⟩ := hb e he
    rw [userByte_of_mem hs he hve, userByte_of_mem ht he' (hv'.trans hve), hbytes _ (offset_lt va)]

/-- A swap-out moves the page to a slot that was nobody's. -/
theorem userByte_swapOutVictim (h : Coherent P s) (hsl : Slots others s)
    (h1 : s.firstFreeFrame ≤ f) (h2 : f < s.nRamFrames) (hd : (s.coremap f).status = .dirty)
    (hf : f ∉ P) (ho : swapOutVictim s f = .ok s') : s'.userByte va = s.userByte va := by
  have hr := h.toReady.swapOutVictim ho
  have hpaddr := h.paddrs f h1 h2 hd
  obtain ⟨e₀, hfind₀, hown⟩ := h.victim h1 h2 hd hf
  obtain ⟨g, e, index, hg, -, hfind, -, hev, -, hempty, rfl⟩ := swapOutVictim_ok ho
  obtain rfl : g = f := by omega
  obtain rfl := Option.some.inj (hfind.symm.trans hfind₀)
  rw [← hev] at hfind
  refine userByte_congr h.table hr.table ?_ ?_
  · rw [swappedOut_entries]
    exact map_modifyFirst fun _ => rfl
  · intro x hx
    by_cases hxe : x.vaddr = e.vaddr
    · -- the page that moved
      obtain rfl := h.table.eq_of_vaddr hown.1 hx hxe
      refine ⟨{ x with swapIndex := index, swapped := true }, ?_, rfl, fun off hoff => ?_⟩
      · rw [swappedOut_entries, h.table.mem_update hfind]
        exact Or.inl rfl
      · have hold : s.entryByte x off = s.ram (g * pageSize + off) := by
          unfold VmState.entryByte
          rw [hown.2.1, hown.2.2.1]
          rfl
        rw [hold, ← hpaddr]
        exact blit_inside hoff
    · refine ⟨x, ?_, rfl, fun off hoff => ?_⟩
      · rw [swappedOut_entries, h.table.mem_update hfind]
        exact Or.inr ⟨hx, hxe⟩
      · unfold VmState.entryByte
        split
        · rename_i hxs
          -- its slot is occupied, the slot that was written was empty
          have hfull := (hsl.full x.swapIndex (List.mem_append_left _
            (mem_slotsOf.mpr ⟨x, hx, hxs, rfl⟩))).2
          refine blit_other_page hoff fun hi => ?_
          grind
        · rfl

theorem userByte_taken (h : Coherent P s) (hsl : Slots others s) (ht : FrameTaken s f s₁)
    (hf : f ∉ P) : s₁.userByte va = s.userByte va := by
  obtain ⟨h1, h2, ⟨-, rfl⟩ | ⟨-, hd, hout⟩⟩ := ht
  · rfl
  · exact userByte_swapOutVictim (s := { s with nextVictim := f + 1 })
      (h.select (Nat.le_succ_of_le h1)) (hsl.same rfl rfl) h1 h2 hd hf hout

/-- A swap-in moves the page to a frame that was nobody's. -/
theorem userByte_pagedIn (h : Coherent (insert f P) s)
    (hfind : s.entries.find? (ptMatch vaddr) = some e) (hs : e.swapped = true) :
    (pagedIn s f vaddr e.swapIndex).userByte va = s.userByte va := by
  have hr := h.toReady.pagedIn f vaddr e.swapIndex
  have he := List.mem_of_find?_eq_some hfind
  refine userByte_congr h.table hr.table ?_ ?_
  · rw [pagedIn_entries]
    exact map_modifyFirst fun _ => rfl
  · intro x hx
    by_cases hxe : x.vaddr = e.vaddr
    · obtain rfl := h.table.eq_of_vaddr he hx hxe
      refine ⟨{ x with ppageIndex := f, swapped := false }, ?_, rfl, fun off hoff => ?_⟩
      · rw [pagedIn_entries, h.table.mem_update hfind]
        exact Or.inl rfl
      · have hold : s.entryByte x off = s.swapspace (x.swapIndex * pageSize + off) := by
          unfold VmState.entryByte
          rw [if_pos hs]
        rw [hold]
        exact blit_inside hoff
    · refine ⟨x, ?_, rfl, fun off hoff => ?_⟩
      · rw [pagedIn_entries, h.table.mem_update hfind]
        exact Or.inr ⟨hx, hxe⟩
      · unfold VmState.entryByte
        split
        · rfl
        · rename_i hxs
          have hxf := (h.resident x hx (by simpa using hxs)).2.2
          refine blit_other_page hoff fun hi => hxf ?_
          rw [hi]
          exact Set.mem_insert f P

/-- Linking a new page adds the bytes that its frame has. -/
theorem userByte_link (h : Ready s) (hp : s.as.isSome)
    (hb : pageFrame vaddr + pageSize < wordSize)
    (hnew : s.entries.find? (ptMatch vaddr) = none) :
    (linkEntry s f vaddr).userByte va =
      if pageFrame va = pageFrame vaddr then some (s.ram (f * pageSize + va % pageSize))
      else s.userByte va := by
  have hr := h.link (f := f) hp hb hnew
  have hes := linkEntry_entries hp f vaddr
  split_ifs with hpage
  · rw [userByte_of_mem hr.table (e := ⟨pageFrame vaddr, f, false, 0⟩)
      (by rw [hes]; exact List.mem_cons_self) hpage.symm]
    rfl
  · cases hf : s.entries.find? (ptMatch va) with
    | none =>
      rw [userByte_none h.table (h.table.search_none.mp hf), userByte_none hr.table]
      rw [hes]
      exact List.forall_mem_cons.mpr ⟨fun hv => hpage hv.symm, h.table.search_none.mp hf⟩
    | some e =>
      obtain ⟨he, hv⟩ := h.table.search_some.mp hf
      rw [userByte_of_mem h.table he hv, userByte_of_mem hr.table (e := e)
        (by rw [hes]; exact List.mem_cons_of_mem _ he) hv]
      rfl

theorem tlbLoad_bytes (s : VmState) (faultpage paddr : Nat) :
    (tlbLoad s faultpage paddr).ram = s.ram ∧
      (tlbLoad s faultpage paddr).swapspace = s.swapspace := by
  unfold tlbLoad tlbGetRrVictim tlbWrite
  simp only
  split <;> exact ⟨rfl, rfl⟩

theorem spares_tlbLoad (st : Stats) (faultpage paddr : Nat) :
    Spares P others s (tlbLoad { s with stats := st } faultpage paddr) := by
  obtain ⟨hr, hs⟩ := tlbLoad_bytes { s with stats := st } faultpage paddr
  exact .same (sameTables_tlbLoad s st faultpage paddr).coremap hr hs

theorem userByte_tlbLoad (st : Stats) (faultpage paddr : Nat) :
    (tlbLoad { s with stats := st } faultpage paddr).userByte va = s.userByte va := by
  obtain ⟨hr, hs⟩ := tlbLoad_bytes { s with stats := st } faultpage paddr
  exact userByte_same (sameTables_tlbLoad s st faultpage paddr).entries hr hs

theorem FrameTaken.ram (ht : FrameTaken s f s₁) : s₁.ram = s.ram := by
  obtain ⟨-, -, ⟨-, rfl⟩ | ⟨-, -, hout⟩⟩ := ht
  · rfl
  · obtain ⟨_, e, index, -, -, -, -, -, -, -, rfl⟩ := swapOutVictim_ok hout
    rfl

/-- **A fault keeps what the processes' pages hold**; a page without an entry gets the bytes that
the frame it was given had. -/
theorem userByte_faulted (h : Coherent P s) (hres : Reserved P s) (hsl : Slots others s)
    {kpages : Nat} {addrs : List Nat} (ha : page % pageSize = 0) (hb : page + pageSize < wordSize)
    (hf : Faulted s page kpages addrs s') :
    Spares P others s s' ∧ ((∀ va, s'.userByte va = s.userByte va) ∨
      s.entries.find? (ptMatch page) = none ∧
        ∃ f s₁, getuserppage s = .ok (f * pageSize, userFrame s₁ f) ∧
        ∀ va, s'.userByte va = if pageFrame va = page then
          some (s.ram (f * pageSize + va % pageSize)) else s.userByte va) := by
  cases hf with
  | @fresh f addrs s₁ s₂ hnone hu ht hk =>
    have hfP := hres.notMem ht
    -- until the entry is linked nothing that a process has changes, and RAM stays as it is
    obtain ⟨hco, h1, h2, hd, hnone₂, hsl₂, hsp, hram, hbyte⟩ := h.fresh
      (J := fun t => Slots others t ∧ Spares P others s t ∧ t.ram = s.ram ∧
        ∀ va, t.userByte va = s.userByte va)
      hres hnone ht hk
      ⟨(hsl.taken ht).modifyFrame f _, (Spares.taken hsl ht).trans (.modifyFrame s₁ hfP _), ht.ram,
        fun va => (userByte_same (s := s₁) rfl rfl rfl).trans (userByte_taken h hsl ht hfP)⟩
      (fun t t₁ g hco htg hg hJ => ⟨(hJ.1.taken htg).modifyFrame g _,
        (hJ.2.1.trans (.taken hJ.1 htg)).trans
          (.modifyFrame t₁ (fun hgP => hg (Set.mem_insert_of_mem f hgP)) _),
        htg.ram.trans hJ.2.2.1,
        fun va => ((userByte_same (s := t₁) rfl rfl rfl).trans
          (userByte_taken hco hJ.1 htg hg)).trans (hJ.2.2.2 va)⟩)
    refine ⟨(hsp.trans (.link s₂ hfP page)).trans (spares_tlbLoad _ _ _),
      Or.inr ⟨hnone, f, s₁, hu, fun va => ?_⟩⟩
    rw [userByte_tlbLoad, userByte_link hco.toReady hco.process
      (by rw [pageFrame_of_aligned ha]; exact hb) hnone₂, pageFrame_of_aligned ha, hram, hbyte]
  | @swapin f e e₁ s₁ he hs ht he₁ hs₁ =>
    have hfP := hres.notMem ht
    refine ⟨((Spares.taken hsl ht).trans (.pagedIn s₁ hfP page e₁.swapIndex)).trans
      (spares_tlbLoad _ _ _), Or.inl fun va => ?_⟩
    rw [userByte_tlbLoad, userByte_pagedIn (h.taken ht) he₁ hs₁, userByte_taken h hsl ht hfP]
  | reload he hs => exact ⟨spares_tlbLoad _ _ _, Or.inl fun va => userByte_tlbLoad _ _ _⟩

end UserByte

end OsPaging.Vm
