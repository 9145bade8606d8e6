import OsPaging.Fs.SemfsCreat
import OsPaging.Fs.Sfs
import OsPaging.Lib.Strides

/-!
# Listing the semaphores

`semfs_getdirentry` takes the offset of the `uio` as a place in `semfs_dents` and gives `uiomove`
the name there. `uiomove` adds to the offset what it has moved, so the next call looks as many
places further as the name has bytes; and a place that `semfs_remove` has set to `NULL` is used like
any other.
**`semfs_listing_complete`** says for which directories the listing is right all the same.
-/

namespace OsPaging.Fs

open OsPaging.Lib OsPaging.Vm
open Function (update update_apply)

variable {N : Type}

namespace Semfs

/-- `semfs_getdirentry`, into a buffer that can be written. The offset is cut to an `unsigned`. -/
def getdirentry (s : Semfs SemfsName) (u : Uio) : Except SemfsFault Uio :=
  let pos := u.offset % wordSize
  if s.dents.length ≤ pos then .ok u
  else
    match s.dent pos with
    | none => .error .panic
    | some (name, _) => .ok (u.moved (fun k => name.1.getD k 0) 0 (min name.1.length u.resid))

/-- The `uio` of a call with a buffer of `buflen` bytes. -/
def dirUio (buflen offset : Nat) : Uio := ⟨offset, buflen, .read, [], buflen⟩

/-- Calls of `semfs_getdirentry`, each with a buffer of `buflen` bytes and at the offset that the
one before has left, until one returns nothing: what they returned, or `none` if that takes more
than `fuel` calls. -/
def listFrom (s : Semfs SemfsName) (buflen : Nat) :
    (fuel offset : Nat) → Except SemfsFault (Option (List (List UInt8)))
  | 0, _ => .ok none
  | fuel + 1, offset =>
    match s.getdirentry (dirUio buflen offset) with
    | .error f => .error f
    | .ok u =>
      if u.buf = [] then .ok (some [])
      else
        match s.listFrom buflen fuel u.offset with
        | .error f => .error f
        | .ok names => .ok (names.map (u.buf :: ·))

/-- The listing ends, uses no removed entry and has every live name once. -/
def ListsAll (s : Semfs SemfsName) (buflen : Nat) : Prop :=
  ∃ fuel names, s.listFrom buflen fuel 0 = .ok (some names) ∧ names.Nodup ∧
    ∀ name, name ∈ names ↔ ∃ i n k, s.dent i = some (n, k) ∧ n.1 = name

/-- The names in the directory, by place. -/
def names (s : Semfs N) : List (Option N) := s.dents.map (Option.map (·.1))

/-- Each name has a byte, and is followed by one free place less than it has bytes. -/
def Spaced (s : Semfs SemfsName) : Prop := SpacedFrom (fun name => name.1.length) 0 s.names

/-- What calls return that read these names; `none` is a free place. -/
def listing : Option (List SemfsName) → Except SemfsFault (Option (List (List UInt8)))
  | none => .error .panic
  | some names => .ok (some (names.map (·.1)))

/-- The array of entries and any one name are in memory at the same time. -/
def InMemory (s : Semfs SemfsName) : Prop :=
  ∀ i n k, s.dent i = some (n, k) → 4 * s.dents.length + n.1.length < wordSize

/-! ## One call -/

variable {s : Semfs SemfsName} {buflen p : Nat}

theorem moved_name (name : SemfsName) {offset : Nat} (h : name.1.length ≤ buflen) :
    ((dirUio buflen offset).moved (fun k => name.1.getD k 0) 0
      (min name.1.length (dirUio buflen offset).resid)).buf = name.1 := by
  rw [show (dirUio buflen offset).resid = buflen from rfl, Nat.min_eq_left h]
  refine List.ext_getElem (by simp [Uio.moved, dirUio]) fun j h1 h2 => ?_
  simp [Uio.moved, dirUio, h2]

theorem names_getElem? (s : Semfs N) (p : Nat) :
    s.names[p]? = s.dents[p]?.map (Option.map (·.1)) := by
  simp [names]

theorem findDent_none [DecidableEq N] {s : Semfs N} {name : N} (h : s.findDent name = none)
    (i k : Nat) : s.dent i ≠ some (name, k) := by
  intro hi
  have hlt := lt_length_of_slotAt hi
  have hget : s.dents[i] = some (name, k) := by
    simpa [dent, slotAt, List.getElem?_eq_getElem hlt] using hi
  unfold findDent at h
  cases hj : s.dents.findIdx? fun d => d.any (·.1 = name) with
  | none =>
    have := List.findIdx?_eq_none_iff.mp hj s.dents[i] (List.getElem_mem hlt)
    simp [hget] at this
  | some j =>
    rw [hj] at h
    obtain ⟨hjlt, hp, -⟩ := List.findIdx?_eq_some_iff_getElem.mp hj
    obtain ⟨e, he, -⟩ := (Option.any_eq_true _ _).mp hp
    simp [dent, slotAt, List.getElem?_eq_getElem hjlt, he] at h

/-- More calls change nothing once one has returned nothing. -/
theorem listFrom_mono {fuel p : Nat} {names : List (List UInt8)}
    (h : s.listFrom buflen fuel p = .ok (some names)) (more : Nat) :
    s.listFrom buflen (more + fuel) p = .ok (some names) := by
  induction fuel generalizing p names with
  | zero => cases h
  | succ fuel ih =>
    rw [← Nat.add_assoc]
    unfold listFrom at h ⊢
    cases hg : s.getdirentry (dirUio buflen p) with
    | error f =>
      rw [hg] at h
      cases h
    | ok u =>
      rw [hg] at h
      dsimp only at h ⊢
      split_ifs at h ⊢
      · exact h
      · cases hl : s.listFrom buflen fuel u.offset with
        | error f =>
          rw [hl] at h
          cases h
        | ok rest =>
          rw [hl] at h
          cases rest with
          | none => cases h
          | some rest =>
            rw [ih hl]
            exact h

/-- The listing reads the directory in strides. -/
theorem listFrom_eq (hmem : s.InMemory)
    (hbuf : ∀ i n k, s.dent i = some (n, k) → n.1.length ≤ buflen) :
    ∀ fuel p, p < wordSize → s.dents.length - p < fuel → s.listFrom buflen fuel p =
      listing (walkFrom (fun name => name.1.length) p s.names)
  | 0, p, _, hfuel => absurd hfuel (Nat.not_lt_zero _)
  | fuel + 1, p, hp, hfuel => by
    have hpos : (dirUio buflen p).offset % wordSize = p := Nat.mod_eq_of_lt hp
    have hlen : s.names.length = s.dents.length := by simp [names]
    unfold listFrom getdirentry
    rw [hpos]
    by_cases hend : s.dents.length ≤ p
    · rw [if_pos hend, walkFrom_end (hlen.trans_le hend)]
      rfl
    rw [if_neg hend]
    have hlt : p < s.dents.length := Nat.lt_of_not_le hend
    have hat := names_getElem? s p
    rw [List.getElem?_eq_getElem hlt] at hat
    have hdent : s.dent p = s.dents[p] := by
      simp [dent, slotAt, List.getElem?_eq_getElem hlt]
    rw [hdent]
    cases hd : s.dents[p] with
    | none =>
      rw [hd] at hat
      rw [walkFrom_free hat]
      rfl
    | some entry =>
      obtain ⟨name, k⟩ := entry
      rw [hd] at hat hdent
      have hname := hbuf p name k hdent
      dsimp only
      rw [moved_name name hname]
      by_cases h0 : name.1 = []
      · rw [if_pos h0, walkFrom_zero_stride hat (by simp [h0])]
        rfl
      · have hne : name.1.length ≠ 0 := by simpa using h0
        have hoff : ((dirUio buflen p).moved (fun k => name.1.getD k 0) 0
            (min name.1.length (dirUio buflen p).resid)).offset = p + name.1.length := by
          simp [Uio.moved, dirUio, hname]
        have hfits := hmem p name k hdent
        rw [if_neg h0, hoff, walkFrom_entry hat hne,
          listFrom_eq hmem hbuf fuel (p + name.1.length) (by omega) (by omega)]
        cases walkFrom (fun name => name.1.length) (p + name.1.length) s.names with
        | none => rfl
        | some as => rfl

end Semfs

/-! ## Names are unique -/

/-- The name that `semfs_creat` is about to enter. -/
def SemfsDirPc.adding : SemfsDirPc N → Option N
  | .create n _ | .insert n _ _ | .makeDent n _ _ _ | .putDent n _ _ _ => some n
  | _ => none

/-- Two entries have different names, and the one that is being added is not there. -/
structure NamesDiffer (s : Semfs N) : Prop where
  inj : ∀ {i j n k k'}, s.dent i = some (n, k) → s.dent j = some (n, k') → i = j
  fresh : ∀ {n}, s.dir.bind (·.adding) = some n → ∀ i k, s.dent i ≠ some (n, k)

namespace NamesDiffer

variable {s s' : Semfs N}

theorem start : NamesDiffer (semfsCreate : Semfs N) where
  inj h := by simp [Semfs.dent, semfsCreate] at h
  fresh _ i k := by simp [Semfs.dent, semfsCreate]

section

variable (h : NamesDiffer s)
include h

/-- The directory is the same, and no name is being added that was not before. -/
theorem keep (hdent : s'.dent = s.dent)
    (hadding : ∀ n, s'.dir.bind (·.adding) = some n → s.dir.bind (·.adding) = some n) :
    NamesDiffer s' where
  inj := by
    rw [hdent]
    exact h.inj
  fresh hn := by
    rw [hdent]
    exact h.fresh (hadding _ hn)

/-- The directory is the same, and no name is being added. -/
theorem idle (hdent : s'.dent = s.dent) (hadding : s'.dir.bind (·.adding) = none) :
    NamesDiffer s' :=
  h.keep hdent fun _ hn => absurd (hadding.symm.trans hn) (by simp)

theorem clear {i : Nat} (hdent : s'.dent = update s.dent i none)
    (hadding : s'.dir.bind (·.adding) = none) : NamesDiffer s' where
  inj {j j' n k k'} hj hj' := by
    rw [hdent, update_apply] at hj hj'
    split_ifs at hj hj'
    exact h.inj hj hj'
  fresh hn := absurd (hadding.symm.trans hn) (by simp)

theorem put {i k : Nat} {n : N} (hn : s.dir.bind (·.adding) = some n)
    (hdent : s'.dent = update s.dent i (some (n, k))) (hadding : s'.dir.bind (·.adding) = none) :
    NamesDiffer s' where
  inj {j j' n' k₁ k₂} hj hj' := by
    rw [hdent, update_apply] at hj hj'
    split_ifs at hj hj' with h1 h2 h2
    · rw [h1, h2]
    · obtain ⟨rfl, -⟩ := Prod.mk.inj (Option.some.inj hj)
      exact absurd hj' (h.fresh hn j' k₂)
    · obtain ⟨rfl, -⟩ := Prod.mk.inj (Option.some.inj hj')
      exact absurd hj (h.fresh hn j k₁)
    · exact h.inj hj hj'
  fresh hn' := absurd (hadding.symm.trans hn') (by simp)

theorem add [DecidableEq N] {n : N} (hnone : s.findDent n = none) (hdent : s'.dent = s.dent)
    (hadding : s'.dir.bind (·.adding) = some n) : NamesDiffer s' where
  inj := by
    rw [hdent]
    exact h.inj
  fresh hn i k := by
    obtain rfl := Option.some.inj (hadding.symm.trans hn)
    rw [hdent]
    exact Semfs.findDent_none hnone i k

end

variable {d : SemfsDirPc N} {p : SemfsTablePc} {mem : Bool}

theorem of_touch {x : Nat} {r : Except SemfsFault (Semfs N)} (h : s.touch x r = .ok s') :
    r = .ok s' := by
  unfold Semfs.touch at h
  split_ifs at h
  exact h

theorem of_locked {r : Except SemfsFault (Semfs N)} (h : s.locked r = .ok s') : r = .ok s' := by
  unfold Semfs.locked at h
  split_ifs at h
  exact h

theorem execDir [DecidableEq N] (h : NamesDiffer s) (hd : s.dir = some d)
    (hs : s.execDir mem d = .ok s') : NamesDiffer s' := by
  have hadding : s.dir.bind (·.adding) = d.adding := by rw [hd]; rfl
  cases d with
  | scan c =>
    cases c with simp only [Semfs.execDir] at hs
    | lookup n | remove n =>
      split at hs <;> cases hs <;> exact h.idle rfl rfl
    | creat n excl =>
      split at hs
      · cases hs
        refine h.keep rfl fun n' hn' => ?_
        cases excl <;> cases hn'
      · rename_i hnone
        cases hs
        exact h.add hnone rfl rfl
  | getvnode c k =>
    cases of_locked hs
    exact h.keep rfl fun _ => id
  | create n i =>
    simp only [Semfs.execDir] at hs
    split_ifs at hs <;> cases hs
    · exact h.keep rfl fun _ hn => hadding.trans hn
    · exact h.idle rfl rfl
  | insert n i x =>
    have hs := of_locked hs
    split_ifs at hs <;> cases hs
    · exact h.idle rfl rfl
    · exact h.keep rfl fun _ hn => hadding.trans hn
    · exact h.idle rfl rfl
  | makeDent n i x k =>
    cases hs
    refine h.keep rfl fun n' hn' => ?_
    cases mem
    · cases hn'
    · exact hadding.trans hn'
  | putDent n i x k =>
    simp only [Semfs.execDir] at hs
    split_ifs at hs <;> cases hs
    · exact h.put hadding (s.dent_put i (n, k)) rfl
    · exact h.idle rfl rfl
  | undir i x k | dropDent i =>
    cases hs
    exact h.clear (s.dent_clearDent i) rfl
  | leave r =>
    cases hs
    exact h.idle rfl rfl
  | getsem i k =>
    have hs := of_locked hs
    split at hs <;> cases hs
    exact h.idle rfl rfl
  | uninsert x k | clear i k x =>
    cases of_locked hs
    exact h.idle rfl rfl
  | link i x k v | uncreate x | destroy i x =>
    cases of_touch hs
    exact h.idle rfl rfl
  | lockSem i k x | unlink i k x | test i k x =>
    have hs := of_touch hs
    split_ifs at hs <;> cases hs <;> exact h.idle rfl rfl
  | unlockSem i k x last =>
    cases of_touch hs
    refine h.keep rfl fun n hn => ?_
    cases last <;> cases hn

theorem adding_getvnodeReturns {r : Option Nat} {d : Option (SemfsDirPc N)} {n : N}
    (hn : (Semfs.getvnodeReturns r d).bind (·.adding) = some n) : d.bind (·.adding) = some n := by
  unfold Semfs.getvnodeReturns at hn
  split at hn
  · cases hn
  · split at hn <;> cases hn
  · exact hn

theorem execTable (h : NamesDiffer s) (hs : s.execTable mem p = .ok s') : NamesDiffer s' := by
  cases p with
  | find dir k =>
    simp only [Semfs.execTable] at hs
    split at hs <;> cases hs <;> exact h.keep rfl fun _ => id
  | make dir k =>
    simp only [Semfs.execTable] at hs
    split_ifs at hs
    · cases hs
      exact h.keep rfl fun _ => id
    · cases hs
      exact h.keep rfl fun _ => id
    · split at hs
      · cases hs
      · have hs := of_touch hs
        split_ifs at hs
        cases hs
        exact h.keep rfl fun _ => id
  | got dir r =>
    simp only [Semfs.execTable] at hs
    split_ifs at hs <;> cases hs
    · exact h.keep rfl fun _ => adding_getvnodeReturns
    · exact h.keep rfl fun _ => id
  | count v =>
    simp only [Semfs.execTable] at hs
    split_ifs at hs <;> cases hs <;> exact h.keep rfl fun _ => id
  | drop v =>
    simp only [Semfs.execTable] at hs
    split_ifs at hs
    · cases hs
      exact h.keep rfl fun _ => id
    · split at hs
      · cases hs
      · have hs := of_touch hs
        split_ifs at hs
        cases hs
        exact h.keep rfl fun _ => id
  | unvnode x k | test x k | destroy x =>
    cases of_touch hs
    exact h.keep rfl fun _ => id
  | clear x k | unlock =>
    cases hs
    exact h.keep rfl fun _ => id

theorem exec [DecidableEq N] (h : NamesDiffer s) {e : SemfsMove N} (hs : s.exec e = .ok s') :
    NamesDiffer s' := by
  cases e with
  | call c =>
    simp only [Semfs.exec] at hs
    split_ifs at hs
    cases hs
    exact h.idle rfl rfl
  | getroot =>
    cases of_locked hs
    exact h.keep rfl fun _ => id
  | incref v =>
    simp only [Semfs.exec] at hs
    split_ifs at hs
    cases hs
    exact h.keep rfl fun _ => id
  | decref v =>
    simp only [Semfs.exec] at hs
    split_ifs at hs <;> cases hs <;> exact h.keep rfl fun _ => id
  | reclaim v =>
    have hs := of_locked hs
    split_ifs at hs
    cases hs
    exact h.keep rfl fun _ => id
  | dir mem =>
    simp only [Semfs.exec] at hs
    split at hs
    · rename_i d hd
      exact h.execDir hd hs
    · cases hs
  | table mem =>
    simp only [Semfs.exec] at hs
    split at hs
    · exact h.execTable hs
    · cases hs

theorem of_run [DecidableEq N] {es : List (SemfsMove N)}
    (hr : Run (fun s e s' => s.exec e = .ok s') semfsCreate es s) : NamesDiffer s :=
  hr.invariant start fun _ _ _ h hs => h.exec hs

theorem mem_dent {i : Nat} {n : N} (hi : i < s.dents.length)
    (hn : s.dents[i].map (·.1) = some n) : ∃ k, s.dent i = some (n, k) := by
  obtain ⟨⟨n', k⟩, he, rfl⟩ := Option.map_eq_some_iff.mp hn
  exact ⟨k, by simp [Semfs.dent, slotAt, List.getElem?_eq_getElem hi, he]⟩

theorem names_nodup (h : NamesDiffer s) : s.names.reduceOption.Nodup := by
  have hdents : s.dents.Pairwise fun a b => ∀ n, a.map (·.1) = some n → b.map (·.1) ≠ some n := by
    refine List.pairwise_iff_getElem.mpr fun i j hi hj hij n ha hb => ?_
    obtain ⟨k, hk⟩ := mem_dent hi ha
    obtain ⟨k', hk'⟩ := mem_dent hj hb
    exact absurd (h.inj hk hk') (Nat.ne_of_lt hij)
  unfold List.reduceOption Semfs.names
  grind

end NamesDiffer

theorem mem_names {s : Semfs N} {n : N} :
    n ∈ s.names.reduceOption ↔ ∃ i k, s.dent i = some (n, k) := by
  rw [List.reduceOption_mem_iff, List.mem_iff_getElem?]
  constructor
  · rintro ⟨i, hi⟩
    rw [Semfs.names_getElem?] at hi
    obtain ⟨d, hd, hn⟩ := Option.map_eq_some_iff.mp hi
    obtain ⟨hlt, rfl⟩ := List.getElem?_eq_some_iff.mp hd
    exact ⟨i, NamesDiffer.mem_dent hlt hn⟩
  · rintro ⟨i, k, hi⟩
    have hget : s.dents[i]? = some (some (n, k)) := Option.join_eq_some_iff.mp hi
    exact ⟨i, by rw [Semfs.names_getElem?, hget]; rfl⟩

/-- **The listing of semaphores is complete if and only if the entries are spaced**, in every state
that calls of the file system lead to. -/
theorem semfs_listing_complete {es : List (SemfsMove SemfsName)} {s : Semfs SemfsName}
    (hr : Run (fun s e s' => s.exec e = .ok s') semfsCreate es s)
    (hmem : s.InMemory) {buflen : Nat}
    (hbuf : ∀ i n k, s.dent i = some (n, k) → n.1.length ≤ buflen) :
    s.ListsAll buflen ↔ s.Spaced := by
  have hnodup := (NamesDiffer.of_run hr).names_nodup
  have hlist := Semfs.listFrom_eq hmem hbuf
  rw [Semfs.Spaced, ← walkFrom_complete_iff hnodup]
  constructor
  · rintro ⟨fuel, names, hl, hn, hall⟩
    have hmore := Semfs.listFrom_mono hl (s.dents.length + 1)
    rw [hlist _ 0 (by decide) (by omega)] at hmore
    cases hw : walkFrom (fun name : SemfsName => name.1.length) 0 s.names with
    | none =>
      rw [hw] at hmore
      cases hmore
    | some as =>
      rw [hw] at hmore
      obtain rfl : as.map (·.1) = names := Option.some.inj (Except.ok.inj hmore)
      refine ⟨as, rfl, List.Nodup.of_map _ hn, fun a => ?_⟩
      have ha := hall a.1
      rw [List.mem_map_of_injective Subtype.val_injective] at ha
      rw [ha, mem_names]
      grind
  · rintro ⟨as, hw, has, hall⟩
    refine ⟨s.dents.length + 1, as.map (·.1), ?_, ?_, ?_⟩
    · rw [hlist _ 0 (by decide) (by omega), hw]
      rfl
    · exact has.map Subtype.val_injective
    · intro name
      simp only [List.mem_map, hall, mem_names]
      grind

/-- The steps of `semfs_creat` of a new name that gets all its memory. -/
def creatMoves (name : SemfsName) : List (SemfsMove SemfsName) :=
  [.call (.creat name true), .dir true, .dir true, .dir true, .dir true, .dir true, .dir true,
    .table true, .table true, .table true, .dir true, .dir true]

/-- The name `t`. -/
def semfsNameT : SemfsName := ⟨[116], by decide⟩

/-- Names of one byte are spaced as long as none is removed. -/
theorem semfs_listing_complete_short : ∃ s : Semfs SemfsName,
    Run (fun s e s' => s.exec e = .ok s') semfsCreate
      (creatMoves semfsNameS ++ creatMoves semfsNameT) s ∧
      s.InMemory ∧ (∀ i n k, s.dent i = some (n, k) → n.1.length ≤ 255) ∧ s.ListsAll 255 := by
  refine Run.exists_imp (Q := fun s => s.dents = [some (semfsNameS, 0), some (semfsNameT, 1)])
    (Run.exists_of_foldlM (fun _ _ _ => toOption_eq_some.mp) (by decide))
    fun s hr hdents => ?_
  have hone : ∀ i n k, s.dent i = some (n, k) → n.1.length = 1 := by
    intro i n k hi
    have hmem := List.mem_of_getElem? (Option.join_eq_some_iff.mp hi)
    rw [hdents] at hmem
    simp only [List.mem_cons, Option.some.injEq, Prod.mk.injEq, List.not_mem_nil, or_false] at hmem
    rcases hmem with ⟨rfl, -⟩ | ⟨rfl, -⟩ <;> rfl
  have hmem : s.InMemory := by
    intro i n k hi
    rw [hone i n k hi, hdents]
    decide
  have hbuf : ∀ i n k, s.dent i = some (n, k) → n.1.length ≤ 255 := by
    intro i n k hi
    rw [hone i n k hi]
    decide
  refine ⟨hmem, hbuf, (semfs_listing_complete hr hmem hbuf).mpr ?_⟩
  rw [Semfs.Spaced, Semfs.names, hdents]
  decide

/-- The name `st`. -/
def semfsNameST : SemfsName := ⟨[115, 116], by decide⟩

/-- The semaphores `st` and `s`: the first call returns `st` and leaves the offset 2, where the
second finds the end. -/
theorem listing_skips : ∃ s : Semfs SemfsName,
    Run (fun s e s' => s.exec e = .ok s') semfsCreate
      (creatMoves semfsNameST ++ creatMoves semfsNameS) s ∧ s.dir = none ∧
      s.dent 1 = some (semfsNameS, 1) ∧ s.listFrom 255 2 0 = .ok (some [semfsNameST.1]) ∧
      ¬s.ListsAll 255 := by
  refine Run.exists_imp (Q := fun s => s.dir = none ∧ s.dent 1 = some (semfsNameS, 1) ∧
    (s.listFrom 255 2 0).toOption = some (some [semfsNameST.1]))
    (Run.exists_of_foldlM (fun _ _ _ => toOption_eq_some.mp) (by decide)) ?_
  rintro s - ⟨hd, ha, hl⟩
  have hl := toOption_eq_some.mp hl
  refine ⟨hd, ha, hl, ?_⟩
  rintro ⟨fuel, names, hnames, -, hall⟩
  have hboth := (Semfs.listFrom_mono hl fuel).symm.trans
    (Nat.add_comm 2 fuel ▸ Semfs.listFrom_mono hnames 2)
  obtain rfl := Option.some.inj (Except.ok.inj hboth)
  have := (hall semfsNameS.1).mpr ⟨1, semfsNameS, 1, ha, rfl⟩
  exact absurd this (by decide)

end OsPaging.Fs
