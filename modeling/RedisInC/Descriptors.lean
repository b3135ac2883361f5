import RedisInC.Server

/-!
# The descriptors of the server

* `ClosedLives` — the history of a descriptor that is not in use: whenever a system
  call has returned it, it has been closed once.
* `Kernel.Tidy` — every descriptor of the server has such a history, but for those
  that are in use now. Closing a descriptor twice, or one that is not open, breaks
  it.
* `Tidy.openFd`, `Tidy.add`, `Tidy.modify`, `Tidy.close` — the system calls keep the
  descriptors in order.
* `Tidy.registered_iff` — the history tells which descriptors are registered.
-/

namespace RedisInC

/-- The lives of a descriptor that is not in use. -/
inductive ClosedLives (fd : Fd) : List FdEvent → Prop
  /-- none so far -/
  | none : ClosedLives fd []
  /-- one that was given up before it was registered -/
  | dropped {past : List FdEvent} (h : ClosedLives fd past) :
      ClosedLives fd (past ++ [.opened fd, .closed fd])
  /-- one that was registered -/
  | served {past : List FdEvent} (h : ClosedLives fd past) :
      ClosedLives fd (past ++ [.opened fd, .registered fd, .closed fd])

namespace Kernel

variable {k : Kernel} {others : Finset Fd} {fd : Fd}

/-- What has happened to a descriptor. -/
def history (k : Kernel) (fd : Fd) : List FdEvent := k.log.filter fun e => e.fd = fd

/-- The life of a descriptor that is in use. -/
def current (k : Kernel) (others : Finset Fd) (fd : Fd) : List FdEvent :=
  if fd ∈ k.epoll then [.opened fd, .registered fd]
  else if fd ∈ k.opened \ others then [.opened fd]
  else []

/-- **The descriptors are in order**; those of others are not touched. -/
structure Tidy (others : Finset Fd) (k : Kernel) : Prop where
  /-- the others are open -/
  others_open : others ⊆ k.opened
  /-- what is registered is open, and the server's own -/
  own : ∀ fd ∈ k.epoll, fd ∈ k.opened \ others
  /-- every descriptor has been closed as often as it was opened before -/
  lives : ∀ fd, ∃ past, ClosedLives fd past ∧ k.history fd = past ++ k.current others fd

/-- The history of a descriptor with one more event. -/
theorem filter_concat (log : List FdEvent) (e : FdEvent) (fd : Fd) :
    (log ++ [e]).filter (fun e => e.fd = fd) =
      log.filter (fun e => e.fd = fd) ++ if e.fd = fd then [e] else [] := by
  rw [List.filter_append, List.filter_singleton]
  by_cases h : e.fd = fd
  · simp [h]
  · simp [h]

theorem history_openFd (k : Kernel) (fd x : Fd) :
    (k.openFd fd).history x = k.history x ++ if fd = x then [.opened fd] else [] :=
  filter_concat _ _ _

theorem history_add (k : Kernel) (fd : Fd) (i : Interest) (x : Fd) :
    (k.add fd i).history x = k.history x ++ if fd = x then [.registered fd] else [] :=
  filter_concat _ _ _

theorem history_close (k : Kernel) (fd x : Fd) :
    (k.close fd).history x = k.history x ++ if fd = x then [.closed fd] else [] :=
  filter_concat _ _ _

/-- A descriptor that is not open is not registered. -/
theorem Tidy.not_registered (hk : k.Tidy others) (hnew : fd ∉ k.opened) : fd ∉ k.epoll :=
  fun h => hnew (Finset.mem_sdiff.mp (hk.own fd h)).1

/-- A new descriptor is the server's own. -/
theorem Tidy.mem_openFd (hk : k.Tidy others) (hnew : fd ∉ k.opened) :
    fd ∈ (k.openFd fd).opened \ others :=
  Finset.mem_sdiff.mpr ⟨Finset.mem_insert_self fd _, fun h => hnew (hk.others_open h)⟩

theorem Tidy.openFd (hk : k.Tidy others) (hnew : fd ∉ k.opened) : (k.openFd fd).Tidy others := by
  have hunregistered := hk.not_registered hnew
  have hothers : fd ∉ others := fun h => hnew (hk.others_open h)
  refine ⟨fun x hx => Finset.mem_insert_of_mem (hk.others_open hx), ?_, ?_⟩
  · intro x hx
    have hown := Finset.mem_sdiff.mp (hk.own x hx)
    exact Finset.mem_sdiff.mpr ⟨Finset.mem_insert_of_mem hown.1, hown.2⟩
  · intro x
    obtain ⟨past, hpast, hhistory⟩ := hk.lives x
    refine ⟨past, hpast, ?_⟩
    rw [history_openFd, hhistory, List.append_assoc]
    congr 1
    by_cases hx : fd = x
    · subst hx
      simp [current, Kernel.openFd, hunregistered, hnew, hothers]
    · simp [current, Kernel.openFd, hx, Ne.symm hx]

theorem Tidy.add (hk : k.Tidy others) (hopen : fd ∈ k.opened \ others) (hnew : fd ∉ k.epoll)
    (i : Interest) : (k.add fd i).Tidy others := by
  refine ⟨hk.others_open, ?_, ?_⟩
  · intro x hx
    rcases Finmap.mem_insert.mp hx with rfl | hin
    · exact hopen
    · exact hk.own x hin
  · intro x
    obtain ⟨past, hpast, hhistory⟩ := hk.lives x
    refine ⟨past, hpast, ?_⟩
    rw [history_add, hhistory, List.append_assoc]
    congr 1
    by_cases hx : fd = x
    · subst hx
      simp [current, Kernel.add, hnew, hopen]
    · simp [current, Kernel.add, hx, Ne.symm hx]

theorem mem_modify (x : Fd) (mask : UInt32) : x ∈ (k.modify fd mask).epoll ↔ x ∈ k.epoll := by
  rw [modify]
  cases hfd : k.epoll.lookup fd with
  | none => exact Iff.rfl
  | some i =>
    have hmem : fd ∈ k.epoll := Finmap.mem_iff.mpr ⟨i, hfd⟩
    constructor
    · intro hx
      rcases Finmap.mem_insert.mp hx with rfl | hin
      · exact hmem
      · exact hin
    · exact fun hx => Finmap.mem_insert.mpr (Or.inr hx)

theorem modify_same (mask : UInt32) :
    (k.modify fd mask).opened = k.opened ∧ (k.modify fd mask).log = k.log := by
  rw [modify]
  cases k.epoll.lookup fd with
  | none => exact ⟨rfl, rfl⟩
  | some i => exact ⟨rfl, rfl⟩

theorem Tidy.modify (hk : k.Tidy others) (fd : Fd) (mask : UInt32) :
    (k.modify fd mask).Tidy others := by
  obtain ⟨hopened, hlog⟩ := @modify_same k fd mask
  refine ⟨hopened ▸ hk.others_open, ?_, ?_⟩
  · intro x hx
    rw [hopened]
    exact hk.own x ((mem_modify x mask).mp hx)
  · intro x
    rw [history, hlog, current, hopened]
    simp only [mem_modify]
    exact hk.lives x

/-- Closing a descriptor that is open ends its life. -/
theorem Tidy.close (hk : k.Tidy others) (hopen : fd ∈ k.opened \ others) :
    (k.close fd).Tidy others := by
  have hothers : fd ∉ others := (Finset.mem_sdiff.mp hopen).2
  refine ⟨fun x hx => ?_, ?_, ?_⟩
  · exact Finset.mem_erase.mpr ⟨fun heq => hothers (heq ▸ hx), hk.others_open hx⟩
  · intro x hx
    obtain ⟨hne, hin⟩ := Finmap.mem_erase.mp hx
    have hown := Finset.mem_sdiff.mp (hk.own x hin)
    exact Finset.mem_sdiff.mpr ⟨Finset.mem_erase.mpr ⟨hne, hown.1⟩, hown.2⟩
  · intro x
    obtain ⟨past, hpast, hhistory⟩ := hk.lives x
    rw [history_close, hhistory]
    by_cases hx : fd = x
    · subst hx
      have hnow : (k.close fd).current others fd = [] := by
        simp [current, Kernel.close, Finmap.mem_erase]
      rw [hnow, if_pos rfl, current]
      split
      · exact ⟨_, hpast.served, by simp⟩
      · exact ⟨_, hpast.dropped, by simp⟩
    · refine ⟨past, hpast, ?_⟩
      simp [current, Kernel.close, Finmap.mem_erase, hx, Ne.symm hx]

/-- `EPOLL_CTL_DEL` before `close` makes no difference. -/
theorem close_del (k : Kernel) (fd : Fd) : (k.del fd).close fd = k.close fd := by
  have herase : (k.epoll.erase fd).erase fd = k.epoll.erase fd := by
    refine Finmap.ext_lookup fun x => ?_
    by_cases hx : x = fd
    · rw [hx, Finmap.lookup_erase, Finmap.lookup_erase]
    · rw [Finmap.lookup_erase_ne hx]
  rw [close, close, del, herase]

theorem lookup_modify_ptr (fd : Fd) (mask : UInt32) (x : Fd) :
    ((k.modify fd mask).epoll.lookup x).map Interest.ptr =
      (k.epoll.lookup x).map Interest.ptr := by
  rw [modify]
  cases hfd : k.epoll.lookup fd with
  | none => rfl
  | some i =>
    by_cases hx : x = fd
    · rw [hx, Finmap.lookup_insert, hfd]
      rfl
    · rw [Finmap.lookup_insert_of_ne _ hx]

theorem mask_modify (hfd : fd ∈ k.epoll) (mask : UInt32) (x : Fd) :
    (k.modify fd mask).mask x = if x = fd then mask else k.mask x := by
  obtain ⟨i, hi⟩ := Finmap.mem_iff.mp hfd
  simp only [Kernel.mask, modify, hi]
  by_cases hx : x = fd
  · rw [if_pos hx, hx, Finmap.lookup_insert]
  · rw [if_neg hx, Finmap.lookup_insert_of_ne _ hx]

/-- A descriptor that is closed again at once leaves nothing but its history. -/
theorem close_openFd (hk : k.Tidy others) (hnew : fd ∉ k.opened) :
    ((k.openFd fd).close fd).opened = k.opened ∧ ((k.openFd fd).close fd).epoll = k.epoll := by
  have hunregistered := hk.not_registered hnew
  refine ⟨Finset.erase_insert hnew, Finmap.ext_lookup fun x => ?_⟩
  change (k.epoll.erase fd).lookup x = _
  by_cases hx : x = fd
  · rw [hx, Finmap.lookup_erase]
    exact (Finmap.lookup_eq_none.mpr hunregistered).symm
  · rw [Finmap.lookup_erase_ne hx]

/-- The last thing that happened to a descriptor tells whether it is registered. -/
theorem Tidy.registered_iff (hk : k.Tidy others) (fd : Fd) :
    (k.history fd).getLast? = some (.registered fd) ↔ fd ∈ k.epoll := by
  obtain ⟨past, hpast, hhistory⟩ := hk.lives fd
  have hlast : past.getLast? ≠ some (.registered fd) := by
    cases hpast <;> simp
  rw [hhistory, Kernel.current]
  by_cases hin : fd ∈ k.epoll
  · simp [hin]
  · rw [if_neg hin]
    split
    · simp [hin]
    · simp [hin, hlast]

end Kernel

end RedisInC
