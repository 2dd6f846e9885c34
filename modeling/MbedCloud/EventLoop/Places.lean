import MbedCloud.EventLoop.Events

/-!
# Where an event is

`Inv held owed s` holds between and inside of the functions of the event loop: `held` are the storages that a
function has in hand, and `owed` the tickets that it still has to bring to a list. Every other storage is in exactly
one place, and every ticket is counted once.
-/

namespace MbedCloud.EventLoop

open List

/-! ## Inserting into a sorted list -/

section

variable {α : Type} {r R : α → α → Prop} [DecidableRel r]

/-- A new element goes behind the elements that it does not precede. -/
theorem pairwise_orderedInsert {x : α} {l : List α} (h : l.Pairwise R) (hbefore : ∀ y ∈ l, r x y → R x y)
    (hbehind : ∀ y ∈ l, ¬ r x y → R y x) (hmono : ∀ y ∈ l, ∀ z ∈ l, R y z → r x y → r x z) :
    (l.orderedInsert r x).Pairwise R := by
  induction l with
  | nil => exact pairwise_singleton R x
  | cons y l ih =>
    obtain ⟨hy, hl⟩ := pairwise_cons.mp h
    rw [orderedInsert_cons]
    by_cases hxy : r x y
    · rw [if_pos hxy]
      refine pairwise_cons.mpr ⟨fun z hz => hbefore z hz ?_, h⟩
      rcases mem_cons.mp hz with rfl | hz'
      · exact hxy
      · exact hmono y (.head _) z hz (hy z hz') hxy
    rw [if_neg hxy]
    refine pairwise_cons.mpr ⟨fun z hz => ?_, ih hl (fun z hz => hbefore z (mem_cons_of_mem y hz))
      (fun z hz => hbehind z (mem_cons_of_mem y hz)) fun z hz w hw => hmono z (mem_cons_of_mem y hz) w (mem_cons_of_mem y hw)⟩
    rcases (mem_orderedInsert r).mp hz with rfl | hz
    · exact hbehind y (.head _) hxy
    · exact hy z hz

end

/-! ## The invariant -/

def places (s : State) : List Storage := s.free ++ (s.timerFree ++ (s.timerList ++ (s.queue ++ s.running)))

def Known (s : State) : Storage → Prop
  | .pool i => i < startupEventPoolSize
  | .dynamic n => n ∈ s.heap
  | .user _ => True
  | .timer n => n ∈ s.timers

/-- By priority, and for equal priorities in the order of sending. -/
def Before (s : State) (x y : Storage) : Prop := s.rank x < s.rank y ∨ s.rank x = s.rank y ∧ (s.marks x).seq < (s.marks y).seq

/-- How often a ticket is found. -/
def tally (owed : List Nat) (s : State) (k : Nat) : Nat :=
  s.log.dispatched.count k + s.log.cancelled.count k + (s.queue.map fun x => (s.marks x).ticket).count k +
    (s.timerList.map fun x => (s.marks x).ticket).count k + owed.count k

/-- A storage that may be put on the list of its kind. -/
def Idle (s : State) (x : Storage) : Prop := (s.cells x).state = .unqueued

/-- A storage in a state, with an event for a tasklet. -/
def Addressed (s : State) (state : EventState) (x : Storage) : Prop :=
  (s.cells x).state = state ∧ (s.cells x).data.receiver ∈ s.tasklets

structure Inv (held : List Storage) (owed : List Nat) (s : State) : Prop where
  nodup : (held ++ places s).Nodup
  known : ∀ x ∈ held ++ places s, Known s x
  complete : ∀ x, Known s x → x ∈ held ++ places s ∨ ∃ n, x = .user n
  /-- A user event that is not in the event loop. -/
  owner : ∀ n, .user n ∉ held ++ places s → (s.cells (.user n)).state = .unqueued
  free : ∀ x ∈ s.free, (∃ i, x = .pool i) ∧ Idle s x
  timerFree : ∀ x ∈ s.timerFree, (∃ n, x = .timer n) ∧ Idle s x
  timerList : ∀ x ∈ s.timerList, (∃ n, x = .timer n) ∧ Addressed s .unqueued x
  queue : ∀ x ∈ s.queue, Addressed s .queued x ∧ (s.marks x).seq < s.log.sent
  running : ∀ x ∈ s.running, Addressed s .running x
  sorted : s.queue.Pairwise (Before s)
  heap : s.heap.Nodup
  tally : ∀ k, tally owed s k = if k < s.log.accepted then 1 else 0

section Places

variable {s : State} {x : Storage}

theorem mem_places : x ∈ places s ↔ x ∈ s.free ∨ x ∈ s.timerFree ∨ x ∈ s.timerList ∨ x ∈ s.queue ∨ x ∈ s.running := by
  unfold places
  simp only [mem_append]

theorem mem_places_of_queue (h : x ∈ s.queue) : x ∈ places s := mem_places.mpr (.inr (.inr (.inr (.inl h))))

theorem mem_places_of_timerList (h : x ∈ s.timerList) : x ∈ places s := mem_places.mpr (.inr (.inr (.inl h)))

theorem mem_places_of_running (h : x ∈ s.running) : x ∈ places s := mem_places.mpr (.inr (.inr (.inr (.inr h))))

theorem setCell_self (s : State) (x : Storage) (g : Cell → Cell) : (s.setCell x g).cells x = g (s.cells x) := if_pos rfl

theorem setCell_ne (s : State) {x y : Storage} (g : Cell → Cell) (h : y ≠ x) : (s.setCell x g).cells y = s.cells y := if_neg h

theorem setMarks_self (s : State) (x : Storage) (g : Marks → Marks) : (s.setMarks x g).marks x = g (s.marks x) := if_pos rfl

theorem setMarks_ne (s : State) {x y : Storage} (g : Marks → Marks) (h : y ≠ x) : (s.setMarks x g).marks y = s.marks y := if_neg h

end Places

/-! ## Storages in hand -/

section

variable {s : State} {x : Storage} {held : List Storage} {owed : List Nat}

section

variable (h : Inv (x :: held) owed s)
include h

theorem Inv.not_mem_places : x ∉ places s := by
  have hnodup := h.nodup
  rw [cons_append, nodup_cons] at hnodup
  exact fun hx => hnodup.1 (mem_append_right held hx)

theorem Inv.of_held {cells : Storage → Cell} {marks : Storage → Marks}
    (hcells : ∀ y, y ≠ x → cells y = s.cells y) (hmarks : ∀ y, y ≠ x → marks y = s.marks y) :
    Inv (x :: held) owed { s with cells := cells, marks := marks } := by
  have hout := h.not_mem_places
  have hne : ∀ {y}, y ∈ places s → y ≠ x := fun hy heq => hout (heq ▸ hy)
  have hne' : ∀ {y}, y ∈ s.queue → y ≠ x := fun hy => hne (mem_places_of_queue hy)
  have hticket : ∀ {l : List Storage}, (∀ y ∈ l, y ∈ places s) →
      (l.map fun y => (marks y).ticket) = l.map fun y => (s.marks y).ticket := by
    intro l hl
    exact map_congr_left fun y hy => by rw [hmarks y (hne (hl y hy))]
  have hidle : ∀ {y}, y ∈ places s → Idle s y → Idle { s with cells := cells, marks := marks } y := by
    intro y hy hidle
    unfold Idle at hidle ⊢
    dsimp only
    rw [hcells y (hne hy)]
    exact hidle
  have haddressed : ∀ {y state}, y ∈ places s → Addressed s state y →
      Addressed { s with cells := cells, marks := marks } state y := by
    intro y state hy haddressed
    unfold Addressed at haddressed ⊢
    dsimp only
    rw [hcells y (hne hy)]
    exact haddressed
  refine ⟨h.nodup, h.known, h.complete, ?_, ?_, ?_, ?_, ?_, ?_, ?_, h.heap, ?_⟩
  · intro n hn
    dsimp only
    rw [hcells _ fun heq => hn (heq ▸ (.head _))]
    exact h.owner n hn
  · exact fun y hy => (h.free y hy).imp_right (hidle (mem_places.mpr (.inl hy)))
  · exact fun y hy => (h.timerFree y hy).imp_right (hidle (mem_places.mpr (.inr (.inl hy))))
  · exact fun y hy => (h.timerList y hy).imp_right (haddressed (mem_places_of_timerList hy))
  · intro y hy
    refine (h.queue y hy).imp (haddressed (mem_places_of_queue hy)) fun hsent => ?_
    dsimp only
    rw [hmarks y (hne' hy)]
    exact hsent
  · exact fun y hy => haddressed (mem_places_of_running hy) (h.running y hy)
  · refine h.sorted.imp_of_mem fun hy hz hyz => ?_
    unfold Before State.rank at hyz ⊢
    dsimp only
    rw [hcells _ (hne' hy), hcells _ (hne' hz), hmarks _ (hne' hy), hmarks _ (hne' hz)]
    exact hyz
  · intro k
    have htally := h.tally k
    unfold EventLoop.tally at htally ⊢
    rw [hticket fun y hy => mem_places_of_queue hy, hticket fun y hy => mem_places_of_timerList hy]
    exact htally

theorem Inv.setCell (g : Cell → Cell) : Inv (x :: held) owed (s.setCell x g) := h.of_held (fun _ hy => if_neg hy) fun _ _ => rfl

theorem Inv.setMarks (g : Marks → Marks) : Inv (x :: held) owed (s.setMarks x g) :=
  h.of_held (fun _ _ => rfl) fun _ hy => if_neg hy

theorem Inv.accept : Inv (x :: held) (((s.accept x).marks x).ticket :: owed) (s.accept x) := by
  have hmarks := h.setMarks fun m => { m with ticket := s.log.accepted }
  have hticket : ((s.accept x).marks x).ticket = s.log.accepted :=
    congrArg Marks.ticket (setMarks_self s x fun m => { m with ticket := s.log.accepted })
  refine { hmarks with tally := fun k => ?_ }
  have htally := hmarks.tally k
  rw [hticket]
  unfold EventLoop.tally at htally ⊢
  change _ = if k < s.log.accepted then 1 else 0 at htally
  show _ = if k < s.log.accepted + 1 then 1 else 0
  have hstep : (if k < s.log.accepted + 1 then 1 else 0) =
      (if k < s.log.accepted then 1 else 0) + if s.log.accepted == k then 1 else 0 := by
    simp only [beq_iff_eq]
    split_ifs <;> omega
  rw [count_cons, hstep, ← htally]
  exact (Nat.add_assoc _ _ _).symm

end

end

/-! ## Moving a storage -/

section

variable {s : State} {x : Storage} {held : List Storage} {owed : List Nat}

theorem count_all (y : Storage) : (held ++ places s).count y = held.count y + s.free.count y + s.timerFree.count y +
    s.timerList.count y + s.queue.count y + s.running.count y := by
  unfold places
  simp only [count_append]
  omega

theorem eventCoreWrite_cells_ne {y : Storage} (h : y ≠ x) : (eventCoreWrite x s).cells y = s.cells y := if_neg h

theorem eventCoreWrite_marks_ne {y : Storage} (h : y ≠ x) : (eventCoreWrite x s).marks y = s.marks y := if_neg h

theorem eventCoreWrite_cells_self : (eventCoreWrite x s).cells x = { s.cells x with state := .queued } := if_pos rfl

theorem eventCoreWrite_marks_self : (eventCoreWrite x s).marks x = { s.marks x with seq := s.log.sent } := if_pos rfl

theorem eventCoreWrite_queue : (eventCoreWrite x s).queue.Perm (x :: s.queue) := perm_orderedInsert _ x s.queue

theorem eventCoreWrite_rank (y : Storage) : (eventCoreWrite x s).rank y = s.rank y := by
  unfold State.rank
  by_cases hy : y = x
  · rw [hy, eventCoreWrite_cells_self]
  · rw [eventCoreWrite_cells_ne hy]

/-- Storages are moved between the other lists and the hand. -/
theorem Inv.relist (h : Inv held owed s) {f t l q r held' : List Storage} {owed' : List Nat}
    (hcount : ∀ y, held'.count y + f.count y + t.count y + l.count y + q.count y + r.count y =
      held.count y + s.free.count y + s.timerFree.count y + s.timerList.count y + s.queue.count y + s.running.count y)
    (hf : ∀ y ∈ f, (∃ i, y = .pool i) ∧ Idle s y) (htf : ∀ y ∈ t, (∃ n, y = .timer n) ∧ Idle s y)
    (htl : ∀ y ∈ l, (∃ n, y = .timer n) ∧ Addressed s .unqueued y)
    (hq : ∀ y ∈ q, Addressed s .queued y ∧ (s.marks y).seq < s.log.sent) (hr : ∀ y ∈ r, Addressed s .running y)
    (hsorted : q.Pairwise (Before s))
    (htally : ∀ k, (q.map fun x => (s.marks x).ticket).count k + (l.map fun x => (s.marks x).ticket).count k +
      owed'.count k = (s.queue.map fun x => (s.marks x).ticket).count k +
        (s.timerList.map fun x => (s.marks x).ticket).count k + owed.count k) :
    Inv held' owed' { s with free := f, timerFree := t, timerList := l, queue := q, running := r } := by
  have hall : (held' ++ (f ++ (t ++ (l ++ (q ++ r))))).Perm (held ++ places s) := by
    rw [perm_iff_count]
    intro y
    rw [count_all, ← hcount y]
    simp only [count_append]
    omega
  refine ⟨hall.nodup_iff.mpr h.nodup, fun y hy => h.known y (hall.mem_iff.mp hy),
    fun y hy => (h.complete y hy).imp_left hall.mem_iff.mpr,
    fun n hn => h.owner n fun hmem => hn (hall.mem_iff.mpr hmem), hf, htf, htl, hq, hr, hsorted, h.heap, fun k => ?_⟩
  have hk := htally k
  have htally := h.tally k
  unfold EventLoop.tally at htally ⊢
  dsimp only
  omega

theorem inv_eventCoreWrite (h : Inv (x :: held) ((s.marks x).ticket :: owed) s)
    (hr : (s.cells x).data.receiver ∈ s.tasklets) : Inv held owed (eventCoreWrite x s) := by
  have hset := (h.setCell fun c => { c with state := .queued }).setMarks fun m => { m with seq := s.log.sent }
  have hwritten : Inv (x :: held) ((s.marks x).ticket :: owed) { eventCoreWrite x s with queue := s.queue } :=
    { hset with queue := fun y hy => (hset.queue y hy).imp_right Nat.lt_succ_of_lt }
  have hperm := eventCoreWrite_queue (x := x) (s := s)
  refine hwritten.relist (f := s.free) (t := s.timerFree) (l := s.timerList) (q := (eventCoreWrite x s).queue)
    (r := s.running) ?_ hwritten.free hwritten.timerFree hwritten.timerList ?_ hwritten.running
    (pairwise_orderedInsert hwritten.sorted ?_ ?_ ?_) ?_
  · intro y
    rw [hperm.count_eq y, count_cons, count_cons]
    show _ = held.count y + _ + s.free.count y + s.timerFree.count y + s.timerList.count y + s.queue.count y +
      s.running.count y
    omega
  · intro y hy
    rcases mem_cons.mp (hperm.mem_iff.mp hy) with rfl | hy
    · unfold Addressed
      rw [eventCoreWrite_cells_self, eventCoreWrite_marks_self]
      exact ⟨⟨rfl, hr⟩, Nat.lt_succ_self _⟩
    · exact hwritten.queue y hy
  · intro y hy hxy
    left
    show (eventCoreWrite x s).rank x < (eventCoreWrite x s).rank y
    rw [eventCoreWrite_rank, eventCoreWrite_rank]
    exact hxy
  · -- the new event was sent last
    intro y hy hxy
    have hlast := (h.queue y hy).2
    have hne : y ≠ x := by
      rintro rfl
      exact h.not_mem_places (mem_places_of_queue hy)
    show (eventCoreWrite x s).rank y < (eventCoreWrite x s).rank x ∨ (eventCoreWrite x s).rank y =
      (eventCoreWrite x s).rank x ∧ ((eventCoreWrite x s).marks y).seq < ((eventCoreWrite x s).marks x).seq
    rw [eventCoreWrite_rank, eventCoreWrite_rank, eventCoreWrite_marks_self, eventCoreWrite_marks_ne hne]
    dsimp only
    omega
  · intro y hy z hz hyz hxy
    have hle : (eventCoreWrite x s).rank y ≤ (eventCoreWrite x s).rank z :=
      hyz.elim Nat.le_of_lt fun hsame => Nat.le_of_eq hsame.1
    rw [eventCoreWrite_rank, eventCoreWrite_rank] at hle
    exact Nat.lt_of_lt_of_le hxy hle
  intro k
  have hq := (hperm.map fun y => ((eventCoreWrite x s).marks y).ticket).count_eq k
  rw [map_cons, count_cons, eventCoreWrite_marks_self] at hq
  show _ = _ + (s.timerList.map fun y => ((eventCoreWrite x s).marks y).ticket).count k + _
  rw [hq, count_cons]
  dsimp only
  omega

variable {t : Nat} {n : Nat} {rest : List Storage}

theorem Inv.logged (h : Inv held (t :: owed) s) {dispatched cancelled : List Nat}
    (hlog : (dispatched ++ cancelled).Perm (t :: (s.log.dispatched ++ s.log.cancelled))) :
    Inv held owed (s.setLog fun l => { l with dispatched := dispatched, cancelled := cancelled }) := by
  refine { h with tally := fun k => ?_ }
  have htally := h.tally k
  have hk := hlog.count_eq k
  rw [count_append, count_cons, count_append] at hk
  unfold EventLoop.tally at htally ⊢
  rw [count_cons] at htally
  show dispatched.count k + cancelled.count k + (s.queue.map fun x => (s.marks x).ticket).count k +
    (s.timerList.map fun x => (s.marks x).ticket).count k + _ = if k < s.log.accepted then 1 else 0
  omega

theorem Inv.dispatched (h : Inv held (t :: owed) s) :
    Inv held owed (s.setLog fun l => { l with dispatched := l.dispatched ++ [t] }) := by
  refine h.logged ?_
  rw [append_assoc]
  exact perm_middle

theorem Inv.cancelled (h : Inv held (t :: owed) s) :
    Inv held owed (s.setLog fun l => { l with cancelled := l.cancelled ++ [t] }) := by
  refine h.logged ?_
  rw [← append_assoc]
  exact perm_append_singleton t _

theorem count_map_erase {l : List Storage} (hx : x ∈ l) (k : Nat) :
    (l.map fun y => (s.marks y).ticket).count k =
      ((l.erase x).map fun y => (s.marks y).ticket).count k + [(s.marks x).ticket].count k := by
  rw [((perm_cons_erase hx).map _).count_eq, map_cons, count_cons, count_singleton]

theorem Inv.eraseQueue (h : Inv held owed s) (hx : x ∈ s.queue) :
    Inv (x :: held) ((s.marks x).ticket :: owed) { s with queue := s.queue.erase x } := by
  refine h.relist ?_ h.free h.timerFree h.timerList (fun y hy => h.queue y (mem_of_mem_erase hy)) h.running
    (h.sorted.sublist erase_sublist) ?_
  · intro y
    rw [(perm_cons_erase hx).count_eq y, count_cons, count_cons]
    omega
  intro k
  have hk := count_map_erase (s := s) hx k
  rw [count_cons, hk, count_singleton]
  omega

theorem Inv.eraseTimerList (h : Inv held owed s) (hx : x ∈ s.timerList) :
    Inv (x :: held) ((s.marks x).ticket :: owed) { s with timerList := s.timerList.erase x } := by
  refine h.relist ?_ h.free h.timerFree (fun y hy => h.timerList y (mem_of_mem_erase hy)) h.queue h.running
    h.sorted ?_
  · intro y
    rw [(perm_cons_erase hx).count_eq y, count_cons, count_cons]
    omega
  intro k
  have hk := count_map_erase (s := s) hx k
  rw [count_cons, hk, count_singleton]
  omega

theorem inv_timerSysAdd (h : Inv (.timer n :: held) ((s.marks (.timer n)).ticket :: owed) s)
    (hidle : Idle s (.timer n)) (hr : (s.cells (.timer n)).data.receiver ∈ s.tasklets) :
    Inv held owed (timerSysAdd (.timer n) s) := by
  have hperm : (s.timerList.orderedInsert
      (fun a b => ticksBefore (s.cells a).launchTime (s.cells b).launchTime = true) (.timer n)).Perm
      (.timer n :: s.timerList) := perm_orderedInsert _ _ _
  have hmarks := h.setMarks fun m => { m with armed := s.log.armed }
  have hticket : ∀ y, ((s.setMarks (.timer n) fun m => { m with armed := s.log.armed }).marks y).ticket = (s.marks y).ticket := by
    intro y
    by_cases hy : y = .timer n
    · rw [hy, setMarks_self]
    · rw [setMarks_ne _ _ hy]
  have hlisted : Inv held owed { s.setMarks (.timer n) fun m => { m with armed := s.log.armed } with
      timerList := s.timerList.orderedInsert
        (fun a b => ticksBefore (s.cells a).launchTime (s.cells b).launchTime = true) (.timer n) } := by
    refine hmarks.relist ?_ hmarks.free hmarks.timerFree ?_ hmarks.queue hmarks.running hmarks.sorted ?_
    · intro y
      rw [hperm.count_eq y, count_cons, count_cons]
      dsimp only [State.setMarks]
      omega
    · intro y hy
      rcases mem_cons.mp (hperm.mem_iff.mp hy) with rfl | hy
      · exact ⟨⟨n, rfl⟩, hidle, hr⟩
      · exact hmarks.timerList y hy
    intro k
    have hq := (hperm.map fun y => (s.marks y).ticket).count_eq k
    rw [map_cons, count_cons] at hq
    simp only [hticket]
    show (s.queue.map fun y => (s.marks y).ticket).count k + _ + _ =
      (s.queue.map fun y => (s.marks y).ticket).count k + (s.timerList.map fun y => (s.marks y).ticket).count k + _
    rw [hq, count_cons]
    omega
  exact { hlisted with }

theorem Inv.putFree {i : Nat} (h : Inv (.pool i :: held) owed s) (hidle : Idle s (.pool i)) :
    Inv held owed { s with free := .pool i :: s.free } := by
  refine h.relist (fun y => ?_) (forall_mem_cons.mpr ⟨⟨⟨i, rfl⟩, hidle⟩, h.free⟩) h.timerFree h.timerList h.queue
    h.running h.sorted fun k => rfl
  rw [count_cons, count_cons]
  omega

theorem Inv.putTimerFree (h : Inv (.timer n :: held) owed s) (hidle : Idle s (.timer n)) :
    Inv held owed { s with timerFree := .timer n :: s.timerFree } := by
  refine h.relist (fun y => ?_) h.free (forall_mem_cons.mpr ⟨⟨⟨n, rfl⟩, hidle⟩, h.timerFree⟩) h.timerList h.queue
    h.running h.sorted fun k => rfl
  rw [count_cons, count_cons]
  omega

theorem Inv.putRunning (h : Inv (x :: held) owed s) (hx : Addressed s .running x) :
    Inv held owed { s with running := x :: s.running } := by
  refine h.relist (fun y => ?_) h.free h.timerFree h.timerList h.queue (forall_mem_cons.mpr ⟨hx, h.running⟩)
    h.sorted fun k => rfl
  rw [count_cons, count_cons]
  omega

theorem Inv.takeRunning (h : Inv held owed s) (hx : s.running = x :: rest) : Inv (x :: held) owed { s with running := rest } := by
  refine h.relist (fun y => ?_) h.free h.timerFree h.timerList h.queue
    (fun y hy => h.running y (hx ▸ mem_cons_of_mem x hy)) h.sorted fun k => rfl
  rw [hx, count_cons, count_cons]
  omega

theorem Inv.takeFree (h : Inv held owed s) (hx : s.free = x :: rest) : Inv (x :: held) owed { s with free := rest } := by
  refine h.relist (fun y => ?_) (fun y hy => h.free y (hx ▸ mem_cons_of_mem x hy)) h.timerFree h.timerList h.queue
    h.running h.sorted fun k => rfl
  rw [hx, count_cons, count_cons]
  omega

theorem Inv.takeTimerFree (h : Inv held owed s) (hx : s.timerFree = x :: rest) :
    Inv (x :: held) owed { s with timerFree := rest } := by
  refine h.relist (fun y => ?_) h.free (fun y hy => h.timerFree y (hx ▸ mem_cons_of_mem x hy)) h.timerList h.queue
    h.running h.sorted fun k => rfl
  rw [hx, count_cons, count_cons]
  omega

/-! ## Storages that come and go -/

theorem Inv.dropUser (h : Inv (.user n :: held) owed s) (hidle : Idle s (.user n)) : Inv held owed s := by
  have hnodup := h.nodup
  rw [cons_append, nodup_cons] at hnodup
  refine { h with nodup := hnodup.2, known := fun y hy => h.known y (.tail _ hy), complete := ?_, owner := ?_ }
  · intro y hy
    rcases h.complete y hy with hy | hy
    · rcases mem_cons.mp hy with rfl | hy
      · exact .inr ⟨n, rfl⟩
      · exact .inl hy
    · exact .inr hy
  intro k hk
  by_cases hkn : k = n
  · subst hkn
    exact hidle
  · exact h.owner k fun hmem => hk ((mem_cons.mp hmem).resolve_left fun heq => hkn (Storage.user.inj heq))

theorem Inv.takeUser (h : Inv held owed s) (hout : .user n ∉ held ++ places s) : Inv (.user n :: held) owed s := by
  refine { h with nodup := ?_, known := ?_, complete := ?_, owner := ?_ }
  · rw [cons_append, nodup_cons]
    exact ⟨hout, h.nodup⟩
  · intro y hy
    rcases mem_cons.mp hy with rfl | hy
    · exact .intro
    · exact h.known y hy
  · intro y hy
    exact (h.complete y hy).imp (.tail _) id
  · exact fun k hk => h.owner k fun hmem => hk (.tail _ hmem)

theorem Inv.dropDynamic (h : Inv (.dynamic n :: held) owed s) : Inv held owed { s with heap := s.heap.erase n } := by
  have hnodup := h.nodup
  rw [cons_append, nodup_cons] at hnodup
  have hother : ∀ k, k ≠ n → (k ∈ s.heap.erase n ↔ k ∈ s.heap) := fun k hk => mem_erase_of_ne hk
  refine { h with nodup := hnodup.2, known := ?_, complete := ?_, owner := ?_, heap := h.heap.erase n }
  · intro y hy
    have hknown := h.known y (.tail _ hy)
    cases y with
    | dynamic k =>
      have hk : k ≠ n := fun heq => hnodup.1 (heq ▸ hy)
      exact (hother k hk).mpr hknown
    | _ => exact hknown
  · intro y hy
    have hmem : ∀ (hknown : Known s y), y ≠ .dynamic n → y ∈ held ++ places s ∨ ∃ n, y = .user n := by
      intro hknown hne
      rcases h.complete y hknown with hmem | huser
      · exact .inl ((mem_cons.mp hmem).resolve_left hne)
      · exact .inr huser
    cases y with
    | user k => exact .inr ⟨k, rfl⟩
    | dynamic k =>
      have hk : k ≠ n := by
        rintro rfl
        exact h.heap.not_mem_erase hy
      exact hmem ((hother k hk).mp hy) fun heq => hk (Storage.dynamic.inj heq)
    | _ => exact hmem hy (by simp)
  · exact fun k hk => h.owner k fun hmem => hk ((mem_cons.mp hmem).resolve_left (by simp))

theorem Inv.adopt (h : Inv held owed s) {heap timers : List Nat} (hnew : ¬ Known s x) (hheap : heap.Nodup)
    (hknown : ∀ y, Known { s with heap := heap, timers := timers } y ↔ y = x ∨ Known s y) :
    Inv (x :: held) owed { s with heap := heap, timers := timers } := by
  refine { h with nodup := ?_, known := ?_, complete := ?_, owner := ?_, heap := hheap }
  · rw [cons_append, nodup_cons]
    exact ⟨fun hmem => hnew (h.known _ hmem), h.nodup⟩
  · intro y hy
    exact (hknown y).mpr ((mem_cons.mp hy).imp id (h.known y))
  · intro y hy
    rcases (hknown y).mp hy with rfl | hy
    · exact .inl (.head _)
    · exact (h.complete y hy).imp (.tail _) id
  · exact fun k hk => h.owner k fun hmem => hk (.tail _ hmem)

theorem Inv.newDynamic (h : Inv held owed s) (hn : n ∉ s.heap) :
    Inv (.dynamic n :: held) owed { s with heap := n :: s.heap } := by
  refine h.adopt hn (nodup_cons.mpr ⟨hn, h.heap⟩) fun y => ?_
  cases y <;> simp [Known]

theorem Inv.newTimer (h : Inv held owed s) (hn : n ∉ s.timers) :
    Inv (.timer n :: held) owed { s with timers := n :: s.timers } := by
  refine h.adopt hn h.heap fun y => ?_
  cases y <;> simp [Known]

end

end MbedCloud.EventLoop

