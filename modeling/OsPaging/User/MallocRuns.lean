import OsPaging.Lib.Run
import OsPaging.User.MallocHeap

/-!
# The user-level heap stays well formed

A program calls `malloc` and `free` and writes to the memory it was given, in any order. The state
is the heap and a record of what the program holds: each pointer with the number of bytes it asked
for. `malloc_heap_well_formed` is the invariant of all such runs.
-/

namespace OsPaging.User

open OsPaging.Lib

variable {p size : Nat} {x : Nat × Nat}

/-- The heap, and what the program holds. -/
structure Sys where
  heap : Heap
  live : List (Nat × Nat)

/-- A byte of the program's own. -/
def Heap.store (h : Heap) (p : Nat) (v : UInt8) : Heap :=
  { h with mem := fun k => if k = p then v else h.mem k }

inductive Event
  /-- `malloc(size)`, with the kernel's answers. -/
  | malloc (size : Nat) (k : Answers)
  /-- `free(p)`. -/
  | free (p : Nat)
  /-- The program writes to byte `i` of the memory at `p`. -/
  | store (p i : Nat) (v : UInt8)
deriving DecidableEq

/-- Requests of at most `2^30` bytes, frees of live pointers and of `NULL`, and writes within the
size asked for. -/
def Allowed (s : Sys) : Event → Prop
  | .malloc size _ => size ≤ 1073741824
  | .free p => p = 0 ∨ ∃ x ∈ s.live, x.1 = p
  | .store p i _ => ∃ x ∈ s.live, x.1 = p ∧ i < x.2

instance (s : Sys) : (e : Event) → Decidable (Allowed s e)
  | .malloc size _ => inferInstanceAs (Decidable (size ≤ 1073741824))
  | .free p => inferInstanceAs (Decidable (p = 0 ∨ ∃ x ∈ s.live, x.1 = p))
  | .store p i _ => inferInstanceAs (Decidable (∃ x ∈ s.live, x.1 = p ∧ i < x.2))

def exec (s : Sys) : Event → Except Exit Sys
  | .malloc size k =>
    match s.heap.malloc size k with
    | .error e => .error e
    | .ok (p, h) => .ok ⟨h, if p = 0 then s.live else (p, size) :: s.live⟩
  | .free p =>
    match s.heap.free p with
    | .error e => .error e
    | .ok h => .ok ⟨h, s.live.filter fun x => x.1 ≠ p⟩
  | .store p i v => .ok { s with heap := s.heap.store (p + i) v }

def Step (s : Sys) (e : Event) (t : Sys) : Prop := Allowed s e ∧ exec s e = .ok t

/-- Before the first call. -/
structure Fresh (s : Sys) : Prop where
  base : s.heap.heapbase = 0
  top : s.heap.heaptop = 0
  brk : s.heap.brk < 4294967296
  live : s.live = []

/-! ## The invariant -/

/-- What the program holds is the data of blocks in use that are long enough. -/
structure Held (h : Heap) (bs : List Block) (live : List (Nat × Nat)) : Prop where
  block : ∀ x ∈ live, ∃ s b, x.1 = s + 8 ∧ LaidAt Block.size h.heapbase bs s b ∧ b.used = true ∧
    x.2 + 8 ≤ b.size
  nodup : (live.map Prod.fst).Nodup

/-- The heap has a shape, and what the program holds lies in it. -/
structure Ok (s : Sys) (bs : List Block) : Prop where
  shape : Shape s.heap bs
  held : Held s.heap bs s.live

variable {s t : Sys} {h h' : Heap} {bs bs' : List Block} {live : List (Nat × Nat)}

theorem Ok.of_fresh (h0 : Fresh s) : Ok s [] := by
  refine ⟨⟨trivial, ?_, ?_, ?_, fun _ => rfl, h0.brk, ⟨.nil, by simp⟩⟩, ⟨?_, ?_⟩⟩
  · rw [h0.top, h0.base]
    rfl
  · rw [h0.base]
  · exact fun hne => absurd h0.base hne
  · simp [h0.live]
  · simp [h0.live]

theorem Held.nil (hh : Held h [] live) : live = [] := by
  cases live with
  | nil => rfl
  | cons x live =>
    obtain ⟨_, _, _, hat, _⟩ := hh.block x List.mem_cons_self
    exact absurd hat not_laidAt_nil

theorem Held.start (hs : Shape h bs) (hh : Held h bs live) {h₀ : Heap}
    (h0 : h.heapbase ≠ 0 → h₀ = h) : Held h₀ bs live := by
  by_cases hb : h.heapbase = 0
  · obtain rfl := hs.empty hb
    obtain rfl := hh.nil
    exact ⟨by simp, by simp⟩
  · rw [h0 hb]
    exact hh

theorem Held.takes {n : Nat} (size : Nat) (hh : Held h bs live) (ht : Takes h n bs p h')
    (hs : Shape h bs) (hsize : size ≤ n * 8) :
    ∃ bs', Shape h' bs' ∧ Held h' bs' (if p = 0 then live else (p, size) :: live) := by
  rcases ht with ⟨rfl, rfl⟩ | ⟨s, bs', rfl, hbase, halloc, hs'⟩
  · exact ⟨bs, hs, hh⟩
  · obtain ⟨b, hat, hused, hb⟩ := halloc.taken
    have hbs := b.size_eq
    refine ⟨bs', hs', ?_, ?_⟩
    · rw [if_neg (by omega), hbase]
      intro x hx
      rcases List.mem_cons.mp hx with rfl | hx
      · grind
      · obtain ⟨t, c, hxt, hc, hcu, hlen⟩ := hh.block x hx
        exact ⟨t, c, hxt, halloc.stays hc hcu, hcu, hlen⟩
    · rw [if_neg (by omega), List.map_cons, List.nodup_cons]
      refine ⟨fun hmem => ?_, hh.nodup⟩
      obtain ⟨x, hx, hxp⟩ := List.mem_map.mp hmem
      obtain ⟨t, c, hxt, hc, hcu, -⟩ := hh.block x hx
      obtain rfl : t = s := by
        simp only at hxp
        omega
      exact absurd (hcu.symm.trans (halloc.new hc)) (by simp)

/-- The block of a live pointer, with those below and above it. -/
theorem Held.split (hh : Held h bs live) (hx : x ∈ live) :
    ∃ xs b ys, bs = xs ++ [b] ++ ys ∧ x.1 = layEnd Block.size h.heapbase xs + 8 ∧ b.used =
      true := by
  obtain ⟨s, b, hxs, hat, hused, -⟩ := hh.block x hx
  obtain ⟨xs, ys, rfl, rfl⟩ := hat.split
  exact ⟨xs, b, ys, by simp, hxs, hused⟩

theorem Held.base_ne_zero (hs : Shape h bs) (hh : Held h bs live) (hx : x ∈ live) :
    h.heapbase ≠ 0 := by
  intro h0
  obtain rfl := hs.empty h0
  rw [hh.nil] at hx
  exact absurd hx List.not_mem_nil

theorem Held.frame (hs : Shape h bs) (hh : Held h bs live) {m : Bytes} (hx : x ∈ live)
    (hm : ∀ k, k < x.1 ∨ x.1 + x.2 ≤ k → m k = h.mem k) :
    Tiles m 0 h.heapbase bs ∧
      ∀ t b, LaidAt Block.size h.heapbase bs t b → Agree h.mem m t (t + 8) := by
  obtain ⟨s, b, hxs, hat, -, hlen⟩ := hh.block x hx
  have hout : ∀ k, k < s + 8 ∨ s + b.size ≤ k → m k = h.mem k := fun k hk => hm k (by omega)
  refine ⟨hs.tiles.frame_data hs.aligned hat hout, fun t c hc k hlo hhi => hout k ?_⟩
  have := c.size_pos
  rcases hc.apart hat with ⟨rfl, -⟩ | hle | hle <;> omega

theorem Ok.step {e : Event} (ho : Ok s bs) (hstep : Step s e t) : ∃ bs', Ok t bs' := by
  obtain ⟨hallowed, hx⟩ := hstep
  cases e with
  | malloc size k =>
    simp only [exec] at hx
    rcases malloc_spec ho.shape (hallowed.trans (by decide)) k with
      ⟨-, e, -, he⟩ | ⟨h₀, p, h', hm, hs₀, hne, h0, ht⟩
    · rw [he] at hx
      cases hx
    · rw [hm] at hx
      cases hx
      obtain ⟨bs', hs', hh'⟩ := (ho.held.start ho.shape h0).takes size ht hs₀ (by omega)
      exact ⟨bs', hs', hh'⟩
  | free p =>
    simp only [exec] at hx
    rcases hallowed with rfl | ⟨x, hxl, rfl⟩
    · -- `free(NULL)`
      rw [Heap.free, if_pos rfl] at hx
      cases hx
      have hall : s.live.filter (fun x => x.1 ≠ 0) = s.live := by
        refine List.filter_eq_self.mpr fun x hx => ?_
        obtain ⟨t, _, hxt, _⟩ := ho.held.block x hx
        simp [hxt]
      exact ⟨bs, ho.shape, hall.symm ▸ ho.held⟩
    · obtain ⟨xs, b, ys, rfl, hp, hused⟩ := ho.held.split hxl
      have hbase := ho.held.base_ne_zero ho.shape hxl
      obtain ⟨m, bs', hm, hrel, hs'⟩ := free_spec ho.shape hbase hused
      rw [hp, hm] at hx
      cases hx
      refine ⟨bs', hs', fun y hy => ?_, ?_⟩
      · obtain ⟨hyl, hne⟩ := List.mem_filter.mp hy
        obtain ⟨t, c, hyt, hc, hcu, hlen⟩ := ho.held.block y hyl
        refine ⟨t, c, hyt, hrel.stays hc hcu ?_, hcu, hlen⟩
        rintro rfl
        exact of_decide_eq_true hne hyt
      · exact ho.held.nodup.sublist (List.filter_sublist.map _)
  | store p i v =>
    cases hx
    obtain ⟨x, hxl, rfl, hi⟩ := hallowed
    have hout : ∀ k, k < x.1 ∨ x.1 + x.2 ≤ k →
        (s.heap.store (x.1 + i) v).mem k = s.heap.mem k := fun k hk => if_neg (by omega)
    obtain ⟨htiles, -⟩ := ho.held.frame ho.shape hxl hout
    have hs := ho.shape
    exact ⟨bs, ⟨htiles, hs.top, hs.aligned, hs.started, hs.empty, hs.brk_lt, hs.kept⟩,
      ho.held.block, ho.held.nodup⟩

theorem Ok.run {s₀ : Sys} {es : List Event} (h0 : Fresh s₀) (hr : Run Step s₀ es s) :
    ∃ bs, Ok s bs :=
  hr.invariant (P := fun s => ∃ bs, Ok s bs) ⟨[], .of_fresh h0⟩
    fun _ _ _ ⟨_, ho⟩ hstep => ho.step hstep

/-! ## The heap is well formed -/

/-- The blocks `bs` account for the heap and for what the program holds. -/
structure WellFormed (s : Sys) (bs : List Block) : Prop where
  /-- The headers tile `[heapbase, heaptop)`, each with the size of the one before it. -/
  tiles : Tiles s.heap.mem 0 s.heap.heapbase bs
  top : layEnd Block.size s.heap.heapbase bs = s.heap.heaptop
  /-- Of two adjacent blocks one is in use. -/
  packed : bs.IsChain Packed
  /-- A live pointer is the data of a block in use that is as long as was asked for. -/
  holds : ∀ x ∈ s.live, ∃ b, LaidAt Block.size s.heap.heapbase bs (x.1 - mblocksize) b ∧
    b.used = true ∧ x.2 ≤ mSize s.heap.mem (x.1 - mblocksize)
  apart : s.live.Pairwise fun x y => x.1 + mSize s.heap.mem (x.1 - mblocksize) ≤ y.1 ∨
    y.1 + mSize s.heap.mem (y.1 - mblocksize) ≤ x.1
  /-- Whatever the program writes to what it holds, the two words of every header stay. -/
  safe : ∀ x ∈ s.live, ∀ m : Bytes, (∀ k, k < x.1 ∨ x.1 + x.2 ≤ k → m k = s.heap.mem k) →
    ∀ t b, LaidAt Block.size s.heap.heapbase bs t b →
      lower m t = lower s.heap.mem t ∧ upper m t = upper s.heap.mem t

theorem Ok.wellFormed (ho : Ok s bs) : WellFormed s bs := by
  have hs := ho.shape
  -- the length that a header gives
  have hsize : ∀ x ∈ s.live, ∃ b, LaidAt Block.size s.heap.heapbase bs (x.1 - mblocksize) b ∧
      b.used = true ∧ x.2 + 8 ≤ b.size ∧ 8 ≤ x.1 ∧
      mSize s.heap.mem (x.1 - mblocksize) = b.size - 8 := by
    intro x hx
    obtain ⟨t, b, hxt, hat, hused, hlen⟩ := ho.held.block x hx
    have htop := hs.started (ho.held.base_ne_zero hs hx)
    have hbrk := hs.brk_lt
    have hb := hat.bounds.2
    rw [← hs.top] at hb
    have hxb : x.1 - mblocksize = t := by
      simp only [mblocksize]
      omega
    rw [hxb]
    refine ⟨b, hat, hused, hlen, by omega, ?_⟩
    obtain ⟨xs, ys, rfl, rfl⟩ := hat.split
    have ht := hs.tiles
    rw [← List.singleton_append, ← List.append_assoc] at ht
    exact ht.header.mSize_eq (by omega)
  refine ⟨hs.tiles, hs.top.symm, hs.kept.packed, fun x hx => ?_, ?_, fun x hx m hm t b hat => ?_⟩
  · grind
  · refine (List.pairwise_map.mp ho.held.nodup).imp_of_mem fun {x y} hx hy hne => ?_
    obtain ⟨b, hb, -, -, hx8, hbs⟩ := hsize x hx
    obtain ⟨c, hc, -, -, hy8, hcs⟩ := hsize y hy
    rw [hbs, hcs]
    simp only [mblocksize] at hb hc
    rcases hb.apart hc with ⟨heq, -⟩ | hle | hle
    · exact absurd (by omega) hne
    · exact .inl (by omega)
    · exact .inr (by omega)
  · have hag := (ho.held.frame hs hx hm).2 t b hat
    have hal : t % 8 = 0 := by
      obtain ⟨xs, ys, rfl, rfl⟩ := hat.split
      exact layEnd_mod hs.aligned
    exact ⟨(hag.mono (Nat.le_refl t) (by omega)).lower hal,
      (hag.mono (by omega) (Nat.le_refl _)).upper hal⟩

/-- **The user-level heap stays well formed** in every history of requests of at most `2^30` bytes,
frees of live pointers and writes to what is held: the blocks account for the heap in every state,
and no call ends with an error, but for a first `malloc` whose `sbrk` fails. -/
theorem malloc_heap_well_formed {s₀ s : Sys} {es : List Event} (h0 : Fresh s₀)
    (hr : Run Step s₀ es s) :
    (∃ bs, WellFormed s bs) ∧
      (∀ size k, size ≤ 1073741824 → (∃ r, s.heap.malloc size k = .ok r) ∨
        (s.heap.heapbase = 0 ∧ ∃ e, s.heap.mallocInit k = .error e)) ∧
      ∀ x ∈ s.live, ∃ h, s.heap.free x.1 = .ok h := by
  obtain ⟨bs, ho⟩ := Ok.run h0 hr
  refine ⟨⟨bs, ho.wellFormed⟩, fun size k hsize => ?_, fun x hx => ?_⟩
  · rcases malloc_spec ho.shape (hsize.trans (by decide)) k with
      ⟨hbase, e, he, -⟩ | ⟨_, p, h', hm, -⟩
    · exact .inr ⟨hbase, e, he⟩
    · exact .inl ⟨_, hm⟩
  · obtain ⟨xs, b, ys, rfl, hp, hused⟩ := ho.held.split hx
    obtain ⟨m, -, hm, -⟩ := free_spec ho.shape (ho.held.base_ne_zero ho.shape hx) hused
    exact ⟨_, hp ▸ hm⟩

/-- A process whose break is at `0x10000004`, before its first call. -/
def start : Sys := ⟨⟨zeros, 0, 0, 0x10000004⟩, []⟩

theorem fresh_start : Fresh start := ⟨rfl, rfl, by decide, rfl⟩

theorem exists_run {es : List Event} {p : Sys → Bool}
    (hp : (es.foldlM (fun s e => if Allowed s e then (exec s e).toOption else none) start).any p =
      true) : ∃ s, Run Step start es s ∧ p s = true :=
  Run.exists_of_exec hp

/-- An empty block, one of 100 bytes that is written to, and the first one freed again. -/
theorem malloc_heap_well_formed_two : ∃ s, Run Step start
      [.malloc 0 ⟨true, true, true⟩, .malloc 100 ⟨true, true, true⟩, .store 0x10000018 99 7,
        .free 0x10000010] s ∧
    s.live = [(0x10000018, 100)] ∧ ∃ bs, WellFormed s bs := by
  exact Run.exists_imp (Q := fun s => s.live = [(0x10000018, 100)])
    (exists_run (by decide +kernel))
    fun s hr hs => ⟨hs, (malloc_heap_well_formed fresh_start hr).1⟩

/-! ## Sizes that wrap around -/

end OsPaging.User
