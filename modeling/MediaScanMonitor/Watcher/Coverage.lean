import MediaScanMonitor.Watcher.History

/-!
# Watcher — coverage while events lag behind

The tree changes below fixed roots, each change is announced by an event, and `events()` handles
the events in order and late.  What is recorded then differs from what is there, and the queue
says how (`Lagging`):

* a directory that is not recorded has an event at or above it in the queue;
* a recorded path without a live watch on a directory to be watched has a removal event at or
  above it in the queue, and so has one whose watch is recorded under another path too.

A removal event carries a path, not a directory, and may find another directory there; `Orderly`
are the steps at which this does no harm.  `coverage`: after orderly steps, whenever the queue is
empty the recorded paths are exactly the directories to be watched, each with a live watch on it.
-/

namespace MediaScanMonitor
open Py Posix Inotify

namespace World
variable {w w' w'' : World} {ign : List Str} {a d k : AbsPath} {l : Loc} {n : Name} {wd : Nat}

/-! ### More watches -/

/-- `w'` is `w` with more watches: nothing recorded is changed and no live watch dies. -/
structure Grown (w w' : World) : Prop where
  full : w'.inst.full = false
  fs : w'.inst.fs = w.inst.fs
  queue : w'.inst.queue = w.inst.queue
  roots : w'.roots = w.roots
  lookup : ∀ p wd, w.watches.lookup p = some wd → w'.watches.lookup p = some wd
  wdAt : ∀ l wd, w.inst.wdAt l = some wd → w'.inst.wdAt l = some wd
  nextWd : w.inst.nextWd ≤ w'.inst.nextWd
  /-- A live watch is one of those before, or its descriptor is new. -/
  origin : ∀ l wd, w'.inst.wdAt l = some wd → w.inst.wdAt l = some wd ∨
    (w.inst.wdAt l = none ∧ w.inst.nextWd ≤ wd)

theorem Grown.refl (h : w.inst.full = false) : Grown w w :=
  ⟨h, rfl, rfl, rfl, fun _ _ h => h, fun _ _ h => h, le_rfl, fun _ _ h => .inl h⟩

theorem Grown.addWatch (h : Grown w w') (a : AbsPath) : Grown w (w'.addWatch a.toStr) := by
  rcases addWatch_cases h.full a with ⟨e, -⟩ | ⟨v, hadd⟩
  · rwa [e]
  · refine ⟨hadd.full, hadd.fs.trans h.fs, hadd.queue.trans h.queue, hadd.roots.trans h.roots,
      fun p wd hp => ?_, fun m wd hm => hadd.wdAt_mono (h.wdAt m wd hm),
      h.nextWd.trans hadd.nextWd_le, fun m wd hm => ?_⟩
    · have hp' := h.lookup p wd hp
      rw [hadd.lookup_ne, hp']
      rintro rfl
      exact hadd.new (mem_of_lookup hp')
    · by_cases e : m = a.segs
      · rw [e, hadd.live] at hm
        cases hm
        rcases hadd.origin with ⟨h', -⟩ | ⟨hnone, hv, -⟩
        · exact e ▸ h.origin a.segs v h'
        · refine .inr ⟨?_, hv ▸ h.nextWd⟩
          cases hw : w.inst.wdAt m with
          | none => rfl
          | some u =>
              have := h.wdAt m u hw
              rw [e, hnone] at this
              cases this
      · exact h.origin m wd ((hadd.other m e).symm.trans hm)

theorem grown_walkAddWatches (h : w.inst.full = false) (a : AbsPath) :
    Grown w (w.walkAddWatches ign a.toStr).1 :=
  walkAddWatches_induct (P := Grown w) (.refl h) fun _ d h' _ _ _ => h'.addWatch d.trim

theorem Grown.live (h : Grown w w') {p : Str} (hp : Live w p) : Live w' p := by
  obtain ⟨wd, hl, hw⟩ := hp
  exact ⟨wd, h.lookup p wd hl, h.wdAt _ wd hw⟩

/-- Every live watch is on a directory and is recorded under its label. -/
def Labelled (w : World) : Prop :=
  ∀ l wd, w.inst.wdAt l = some wd →
    w.watches.lookup (w.inst.label wd).toStr = some wd ∧ w.inst.fs.isDir l = true

theorem Labelled.addWatch (h : Labelled w) (hfull : w.inst.full = false)
    (ha : w.inst.fs.isDir a.segs = true) : Labelled (w.addWatch a.toStr) := by
  rcases addWatch_cases hfull a with ⟨e, -⟩ | ⟨v, hadd⟩
  · rwa [e]
  · intro m wd hm
    rw [hadd.fs]
    by_cases e : m = a.segs
    · rw [e, hadd.live] at hm
      cases hm
      refine ⟨?_, e ▸ ha⟩
      rcases hadd.label_self with ⟨-, hlabel⟩ | ⟨hold, hlabel⟩
      · rw [hlabel, hadd.lookup_self]
      · -- The watch was on the object before, and is recorded under the path it had.
        obtain ⟨hl, -⟩ := h a.segs v hold
        rw [hlabel, hadd.lookup_ne, hl]
        intro e'
        exact hadd.new (e' ▸ mem_of_lookup hl)
    · have hne : wd ≠ v := by
        rintro rfl
        exact e (Inst.wdAt_inj hm hadd.live)
      rw [hadd.other m e] at hm
      obtain ⟨hl, hd⟩ := h m wd hm
      refine ⟨?_, hd⟩
      rw [hadd.label_ne hne, hadd.lookup_ne, hl]
      intro e'
      exact hadd.new (e' ▸ mem_of_lookup hl)

/-! ### What is to be watched -/

/-- A directory to be watched: it exists at or under a root, and no name in it is ignored. -/
def Present (ign : List Str) (w : World) (d : AbsPath) : Prop :=
  Under w.roots d ∧ w.inst.fs.isDir d.segs = true ∧ isIgnored ign d.toStr = false

/-- The roots are apart: none is at or under another. -/
def Apart (roots : List Str) : Prop :=
  ∀ r ∈ roots, ∀ r' ∈ roots, (parse r).segs <+: (parse r').segs → r = r'

instance (roots : List Str) : Decidable (Apart roots) :=
  inferInstanceAs (Decidable (∀ r ∈ roots, ∀ r' ∈ roots, _))

/-- Two roots above one location are one root. -/
theorem Apart.eq_of_above {roots : List Str} {r r' : Str} (h : Apart roots) (hr : r ∈ roots)
    (hr' : r' ∈ roots) (hrl : (parse r).segs <+: l) (hrl' : (parse r').segs <+: l) : r = r' := by
  rcases List.prefix_or_prefix_of_prefix hrl hrl' with hp | hp
  · exact h r hr r' hr' hp
  · exact (h r' hr' r hr hp).symm

/-- Below roots that are apart a location has one spelling. -/
theorem Apart.eq_of_segs {roots : List Str} (h : Apart roots) (ha : Under roots a)
    (hd : Under roots d) (hs : a.segs = d.segs) : a = d := by
  obtain ⟨r, hr, hra⟩ := ha
  obtain ⟨r', hr', hrd⟩ := hd
  have hr'' : r = r' := h.eq_of_above hr hr' hra.2 (hs ▸ hrd.2)
  obtain ⟨d₁, s₁⟩ := a
  obtain ⟨d₂, s₂⟩ := d
  cases hs
  have : d₁ = d₂ := hra.1.symm.trans ((congrArg (fun r => (parse r).dbl) hr'').trans hrd.1)
  rw [this]

/-- An event the queue holds, at or above `d`. -/
def Announced (kind : Nat → Bool) (queue : List Raw) (d : AbsPath) : Prop :=
  ∃ e ∈ queue, ∃ a ∈ e.path, kind e.mask = true ∧ a ≤ d

theorem Announced.mono {kind : Nat → Bool} {q q' : List Raw} (h : Announced kind q d)
    (hq : ∀ e ∈ q, e ∈ q') : Announced kind q' d := by
  obtain ⟨e, he, h⟩ := h
  exact ⟨e, hq e he, h⟩

theorem Announced.below {kind : Nat → Bool} {q : List Raw} (h : Announced kind q d) (hk : d ≤ k) :
    Announced kind q k := by
  obtain ⟨e, he, a, ha, hkind, hle⟩ := h
  exact ⟨e, he, a, ha, hkind, hle.trans hk⟩

/-- The events about directories. -/
def dirEvent (mask : Nat) : Bool := appears mask || vanishes mask

theorem Announced.dirEvent_of_vanishes {q : List Raw} (h : Announced vanishes q d) :
    Announced dirEvent q d := by
  obtain ⟨e, he, a, ha, hkind, hle⟩ := h
  exact ⟨e, he, a, ha, by rw [dirEvent, hkind, Bool.or_true], hle⟩

/-- The invariant: what is recorded, and what the queue says about the rest. -/
structure Lagging (ign : List Str) (w : World) : Prop where
  sound : Sound w
  apart : Apart w.roots
  /-- No name at or under a root ends in white space. -/
  names : ∀ d, Under w.roots d → w.inst.fs.node d.segs ≠ none → d.Clean
  keys : ∀ p ∈ w.watches, ∃ d : AbsPath, p = d.toStr ∧ Under w.roots d ∧ isIgnored ign p = false
  label : Labelled w
  queue : ∀ e ∈ w.inst.queue, ¬ e.mask &&& IN_Q_OVERFLOW ≠ 0 ∧
    ∃ a, e.path = some a ∧ a.Clean ∧ a.segs ≠ [] ∧ Under w.roots a
  missing : ∀ d, Present ign w d → d.toStr ∉ w.watches → Announced dirEvent w.inst.queue d
  stale : ∀ d : AbsPath, d.toStr ∈ w.watches →
    (Present ign w d ∧ Live w d.toStr) ∨ Announced vanishes w.inst.queue d
  shared : ∀ (d k : AbsPath) wd, d ≠ k → w.watches.lookup d.toStr = some wd →
    w.watches.lookup k.toStr = some wd → Announced vanishes w.inst.queue d

/-! ### One turn -/

section Turn
variable {e : Raw} {q : List Raw}

/-- An event that does not concern `d` leaves the others to announce it. -/
theorem Announced.tail {kind : Nat → Bool} (h : Announced kind (e :: q) d)
    (he : ∀ a ∈ e.path, kind e.mask = true → ¬ a ≤ d) : Announced kind q d := by
  obtain ⟨e', he', a, ha, hkind, hle⟩ := h
  rcases List.mem_cons.mp he' with rfl | he'
  · exact absurd hle (he a ha hkind)
  · exact ⟨e', he', a, ha, hkind, hle⟩

theorem queue_dequeue (hq : w.inst.queue = e :: q) : w.dequeue.inst.queue = q := by
  rw [dequeue, hq]; rfl

/-- A path that is recorded is not ignored. -/
theorem Lagging.not_ignored (h : Lagging ign w) (hd : d.toStr ∈ w.watches) :
    isIgnored ign d.toStr = false := by
  obtain ⟨_, _, _, hi⟩ := h.keys _ hd
  exact hi

/-- A turn that changes no watch: the event is about no directory, or about an ignored one. -/
theorem Lagging.idle (h : Lagging ign w) (hq : w.inst.queue = e :: q)
    (hno : ∀ a ∈ e.path, dirEvent e.mask = true → isIgnored ign a.toStr = true) :
    Lagging ign w.dequeue := by
  have htail : ∀ {kind : Nat → Bool} {d : AbsPath}, (∀ m, kind m = true → dirEvent m = true) →
      isIgnored ign d.toStr = false → Announced kind w.inst.queue d →
        Announced kind w.dequeue.inst.queue d := by
    intro kind d hkind hi hd
    rw [queue_dequeue hq]
    rw [hq] at hd
    refine hd.tail fun a ha hk hle => ?_
    have := isIgnored_of_le hle hi
    rw [hno a ha (hkind _ hk)] at this
    cases this
  have hv : ∀ m, vanishes m = true → dirEvent m = true := fun m hm => by
    rw [dirEvent, hm, Bool.or_true]
  refine ⟨h.sound.dequeue, h.apart, h.names, h.keys, h.label, fun e' he' => h.queue e' ?_,
    fun d hd hm => htail (fun _ h => h) hd.2.2 (h.missing d hd hm),
    fun d hd => (h.stale d hd).imp id (htail hv (h.not_ignored hd)),
    fun d k wd hne hd hk => htail hv (h.not_ignored (mem_of_lookup hd))
      (h.shared d k wd hne hd hk)⟩
  rw [queue_dequeue hq] at he'
  rw [hq]
  exact List.mem_cons_of_mem _ he'

/-- **A removal is handled**: the paths at and under it are dropped, and every directory that is
there has a creation or move behind it in the queue. -/
theorem Lagging.vanish (h : Lagging ign w) (hq : w.inst.queue = e :: q) (he : e.path = some a)
    (hok : ∀ d, a ≤ d → w.inst.fs.isDir d.segs = true → isIgnored ign d.toStr = false →
      Announced appears q d) : Lagging ign (w.dequeue.removeWatchTree a.toStr) := by
  have hev : e ∈ w.inst.queue := by rw [hq]; exact List.mem_cons_self
  obtain ⟨a', ha', -, hseg, -⟩ := (h.queue e hev).2
  obtain rfl : a = a' := by
    rw [he] at ha'
    exact Option.some.inj ha'
  obtain ⟨hfs, hqueue, hlabel, hnext, hfull, hroots⟩ := removeWatchTree_fields w.dequeue a.toStr
  have hlookup : ∀ d : AbsPath, (w.dequeue.removeWatchTree a.toStr).watches.lookup d.toStr =
      if a ≤ d then none else w.watches.lookup d.toStr := by
    intro d
    rw [lookup_removeWatchTree]
    by_cases hle : a ≤ d
    · rw [if_pos ((inTree_toStr hseg).mpr hle), if_pos hle]
    · rw [if_neg fun hin => hle ((inTree_toStr hseg).mp hin), if_neg hle]
      rfl
  have hmem : ∀ {d : AbsPath}, d.toStr ∈ (w.dequeue.removeWatchTree a.toStr).watches →
      ¬ a ≤ d ∧ d.toStr ∈ w.watches := by
    intro d hd
    obtain ⟨hd', hin⟩ := (mem_removeWatchTree _ _ _).mp hd
    exact ⟨fun hle => Bool.false_ne_true (hin.symm.trans ((inTree_toStr hseg).mpr hle)), hd'⟩
  have htail : ∀ {kind : Nat → Bool} {d : AbsPath}, ¬ a ≤ d → Announced kind w.inst.queue d →
      Announced kind q d := by
    intro kind d hle hd
    rw [hq] at hd
    refine hd.tail fun b hb _ hbd => hle ?_
    rw [he] at hb
    exact Option.some.inj hb ▸ hbd
  have hq' : (w.dequeue.removeWatchTree a.toStr).inst.queue = q := hqueue.trans (queue_dequeue hq)
  refine ⟨h.sound.dequeue.removeWatchTree _, hroots ▸ h.apart, ?_, fun p hp => ?_, fun l wd hl => ?_,
    fun e' he' => ?_, fun d hd hm => ?_, fun d hd => ?_, fun d k wd hne hd hk => ?_⟩
  · intro d hd hn
    rw [hroots] at hd
    rw [hfs] at hn
    exact h.names d hd hn
  · rw [hroots]
    exact h.keys p ((mem_removeWatchTree _ _ _).mp hp).1
  · obtain ⟨hl', hsurvive⟩ := (wdAt_removeWatchTree _ _ l wd).mp hl
    obtain ⟨hrec, hdir⟩ := h.label l wd hl'
    have hkept := hlookup (w.inst.label wd)
    rw [if_neg fun hle => hsurvive _ ((inTree_toStr hseg).mpr hle) hrec, hrec] at hkept
    exact ⟨by rw [hlabel]; exact hkept, by rw [hfs]; exact hdir⟩
  · rw [hq'] at he'
    rw [hroots]
    exact h.queue e' (by rw [hq]; exact List.mem_cons_of_mem _ he')
  · unfold Present at hd
    rw [hroots, hfs] at hd
    rw [hq']
    by_cases hle : a ≤ d
    · obtain ⟨e', he', b, hb, hkind, hbd⟩ := hok d hle hd.2.1 hd.2.2
      exact ⟨e', he', b, hb, by rw [dirEvent, hkind, Bool.true_or], hbd⟩
    · refine htail hle (h.missing d hd fun hrec => hm ?_)
      refine (mem_removeWatchTree _ _ _).mpr ⟨hrec, ?_⟩
      exact Bool.eq_false_iff.mpr fun hin => hle ((inTree_toStr hseg).mp hin)
  · obtain ⟨hle, hd'⟩ := hmem hd
    rw [hq']
    rcases h.stale d hd' with ⟨hpres, hlive⟩ | hann
    · obtain ⟨wd, hwd, hat⟩ := live_toStr.mp hlive
      -- the watch survives, or it is recorded under a dropped path too
      by_cases hdoomed : ∃ k : AbsPath, a ≤ k ∧ w.watches.lookup k.toStr = some wd
      · obtain ⟨k, hak, hk⟩ := hdoomed
        exact .inr (htail hle (h.shared d k wd (fun e => hle (e ▸ hak)) hwd hk))
      · refine .inl ⟨by unfold Present; rw [hroots, hfs]; exact hpres, live_toStr.mpr ⟨wd, ?_, ?_⟩⟩
        · rw [hlookup, if_neg hle, hwd]
        · refine (wdAt_removeWatchTree _ _ _ _).mpr ⟨hat, fun p hin hp => hdoomed ?_⟩
          obtain ⟨k, rfl, -, -⟩ := h.keys p (mem_of_lookup hp)
          exact ⟨k, (inTree_toStr hseg).mp hin, hp⟩
    · exact .inr (htail hle hann)
  · rw [hlookup] at hd hk
    split at hd
    · cases hd
    · rename_i hle
      split at hk
      · cases hk
      · rw [hq']
        exact htail hle (h.shared d k wd hne hd hk)

/-- What a walk records that was not recorded: directories to be watched, under their paths. -/
theorem Lagging.mem_walk (h : Lagging ign w) (ha : Under w.roots a) {p : Str} :
    p ∈ (w.dequeue.walkAddWatches ign a.toStr).1.watches ↔
      p ∈ w.watches ∨ ∃ d, a ≤ d ∧ Present ign w d ∧ p = d.toStr := by
  rw [mem_walkAddWatches h.sound.dequeue.full]
  refine or_congr_right ⟨?_, ?_⟩
  · rintro ⟨d, ⟨t, rfl, ht, hd⟩, rfl, hi, -⟩
    have hle := AbsPath.le_extend a t
    have hclean : (a.extend t).trim = a.extend t :=
      h.names _ (ha.mono hle) (Fs.node_ne_none_of_isDir hd)
    rw [hclean] at hi ⊢
    exact ⟨_, hle, ⟨ha.mono hle, hd, hi⟩, rfl⟩
  · rintro ⟨d, hle, ⟨hu, hd, hi⟩, rfl⟩
    exact attaches_of_clean hle hd hi (h.names d hu (Fs.node_ne_none_of_isDir hd))

/-- The watches stay labelled through a walk. -/
theorem Lagging.labelled_walk (h : Lagging ign w) (ha : Under w.roots a) :
    Labelled (w.dequeue.walkAddWatches ign a.toStr).1 := by
  refine (walkAddWatches_induct (w := w.dequeue) (P := fun w' => Labelled w' ∧ w'.inst.full = false)
    ⟨h.label, h.sound.dequeue.full⟩ fun w' d hw' hfs hv _ => ?_).1
  obtain ⟨t, rfl, -, hd⟩ := hv
  have hclean : (a.extend t).trim = a.extend t :=
    h.names _ (ha.mono (AbsPath.le_extend a t)) (Fs.node_ne_none_of_isDir hd)
  rw [hclean]
  exact ⟨hw'.1.addWatch hw'.2 (by rw [hfs]; exact hd), (addWatch_fields hw'.2 _).2.1⟩

/-- **A creation is handled**: what is found at and under it is recorded.  A directory that is
watched under another path has a removal behind it in the queue. -/
theorem Lagging.appear (h : Lagging ign w) (hq : w.inst.queue = e :: q) (he : e.path = some a)
    (hap : appears e.mask = true)
    (hok : ∀ d, a ≤ d → w.inst.fs.isDir d.segs = true → isIgnored ign d.toStr = false →
      d.toStr ∉ w.watches → w.inst.wdAt d.segs ≠ none → Announced vanishes q d) :
    Lagging ign (w.dequeue.walkAddWatches ign a.toStr).1 := by
  have hev : e ∈ w.inst.queue := by rw [hq]; exact List.mem_cons_self
  obtain ⟨a', ha', -, -, hu⟩ := (h.queue e hev).2
  obtain rfl : a = a' := by
    rw [he] at ha'
    exact Option.some.inj ha'
  have hg : Grown w.dequeue (w.dequeue.walkAddWatches ign a.toStr).1 :=
    grown_walkAddWatches h.sound.dequeue.full a
  have hmem := fun p => h.mem_walk hu (p := p)
  have hlabel := h.labelled_walk hu
  have hlive : ∀ d, a ≤ d → Present ign w d → d.toStr ∉ w.watches →
      Live (w.dequeue.walkAddWatches ign a.toStr).1 d.toStr := fun d hle hd hno => by
    refine live_walkAddWatches h.sound.dequeue.full (.inr ⟨hno, ?_⟩)
    exact attaches_of_clean hle hd.2.1 hd.2.2 (h.names d hd.1 (Fs.node_ne_none_of_isDir hd.2.1))
  have hsound : Sound (w.dequeue.walkAddWatches ign a.toStr).1 :=
    h.sound.dequeue.walkAddWatches a
  have hnv : vanishes e.mask = false := by
    rw [appears, Bool.and_eq_true] at hap
    rw [vanishes, hap.1]
    cases hm : maskToEventType e.mask with
    | none => rfl
    | some t => rw [hm] at hap; cases t <;> first | rfl | exact absurd hap.2 (by decide)
  generalize (w.dequeue.walkAddWatches ign a.toStr).1 = w' at hg hmem hlabel hlive hsound
  have hq' : w'.inst.queue = q := hg.queue.trans (queue_dequeue hq)
  have hroots : w'.roots = w.roots := hg.roots
  have hfs : w'.inst.fs = w.inst.fs := hg.fs
  -- a removal that is announced is still announced: the event handled is none
  have htail : ∀ d, Announced vanishes w.inst.queue d → Announced vanishes q d := fun d hd => by
    rw [hq] at hd
    exact hd.tail fun _ _ hk => by rw [hnv] at hk; cases hk
  have hpres : ∀ d, Present ign w' d ↔ Present ign w d := fun d => by
    unfold Present
    rw [hroots, hfs]
  refine ⟨hsound, hroots ▸ h.apart, fun d hd hn => ?_, fun p hp => ?_, hlabel, fun e' he' => ?_,
    fun d hd hno => ?_, fun d hd => ?_, fun d k wd hne hd hk => ?_⟩
  · rw [hroots] at hd
    rw [hfs] at hn
    exact h.names d hd hn
  · rw [hroots]
    rcases (hmem p).mp hp with hp | ⟨d, -, hd, rfl⟩
    · exact h.keys p hp
    · exact ⟨d, rfl, hd.1, hd.2.2⟩
  · rw [hq'] at he'
    rw [hroots]
    exact h.queue e' (by rw [hq]; exact List.mem_cons_of_mem _ he')
  · rw [hpres] at hd
    have hno' : d.toStr ∉ w.watches := fun hr => hno ((hmem _).mpr (.inl hr))
    rw [hq']
    have hann := h.missing d hd hno'
    rw [hq] at hann
    refine hann.tail fun b hb _ hbd => hno ((hmem _).mpr (.inr ⟨d, ?_, hd, rfl⟩))
    rw [he] at hb
    exact Option.some.inj hb ▸ hbd
  · rw [hq', hpres]
    by_cases hr : d.toStr ∈ w.watches
    · exact (h.stale d hr).imp (fun hl => ⟨hl.1, hg.live hl.2⟩) (htail d)
    · rcases (hmem _).mp hd with hr' | ⟨d', hle, hd', e'⟩
      · exact absurd hr' hr
      · obtain rfl := AbsPath.toStr_injective e'
        exact .inl ⟨hd', hlive d hle hd' hr⟩
  · rw [hq']
    -- a path that is newly recorded has the watch of its directory, or a new one
    have hnew : ∀ d : AbsPath, d.toStr ∉ w.watches → w'.watches.lookup d.toStr = some wd →
        a ≤ d ∧ Present ign w d ∧ w'.inst.wdAt d.segs = some wd := by
      intro d hno hl
      rcases (hmem _).mp (mem_of_lookup hl) with hr' | ⟨d', hle, hd', e'⟩
      · exact absurd hr' hno
      · obtain rfl := AbsPath.toStr_injective e'
        obtain ⟨v, hv, hat⟩ := live_toStr.mp (hlive d hle hd' hno)
        rw [hl] at hv
        cases hv
        exact ⟨hle, hd', hat⟩
    have hold : ∀ d : AbsPath, d.toStr ∈ w.watches → w'.watches.lookup d.toStr = some wd →
        w.watches.lookup d.toStr = some wd := by
      intro d hr hl
      obtain ⟨v, hv⟩ := Option.isSome_iff_exists.mp (AList.lookup_isSome.mpr hr)
      rw [hg.lookup _ v hv] at hl
      rw [hv, ← hl]
    -- two paths with one live watch on the directories of both are one path
    have hsame : ∀ d k : AbsPath, Under w.roots d → Under w.roots k →
        w'.inst.wdAt d.segs = some wd → w'.inst.wdAt k.segs = some wd → d = k :=
      fun d k hd hk hwd hwk => h.apart.eq_of_segs hd hk (Inst.wdAt_inj hwd hwk)
    by_cases hrd : d.toStr ∈ w.watches
    · have hd₀ := hold d hrd hd
      by_cases hrk : k.toStr ∈ w.watches
      · exact htail d (h.shared d k wd hne hd₀ (hold k hrk hk))
      · -- `d` is not live: its watch is on `k`
        obtain ⟨-, hpk, hatk⟩ := hnew k hrk hk
        rcases h.stale d hrd with ⟨hpd, hld⟩ | hann
        · obtain ⟨v, hv, hat⟩ := live_toStr.mp (hg.live hld)
          rw [hd] at hv
          cases hv
          exact absurd (hsame d k hpd.1 hpk.1 hat hatk) hne
        · exact htail d hann
    · obtain ⟨hle, hpd, hatd⟩ := hnew d hrd hd
      rcases hg.origin _ _ hatd with hat | ⟨-, hge⟩
      · exact hok d hle hpd.2.1 hpd.2.2 hrd
          (by rw [show w.inst.wdAt d.segs = some wd from hat]; exact Option.some_ne_none wd)
      · -- the descriptor is new, so no path had it
        by_cases hrk : k.toStr ∈ w.watches
        · have hlt := h.sound.lt (hold k hrk hk)
          exact absurd hlt (Nat.not_lt.mpr hge)
        · obtain ⟨-, hpk, hatk⟩ := hnew k hrk hk
          exact absurd (hsame d k hpd.1 hpk.1 hatd hatk) hne

/-- **The turns that do no harm.**  A removal finds no directory at or under its path that is not
about to be walked again; a walk finds no directory watched under another path whose own path is
not about to be dropped. -/
def TurnOrderly (ign : List Str) (w : World) : Prop :=
  ∀ e q, w.inst.queue = e :: q → ∀ a ∈ e.path, isIgnored ign a.toStr = false →
    ∀ d, a ≤ d → w.inst.fs.isDir d.segs = true → isIgnored ign d.toStr = false →
      (vanishes e.mask = true → Announced appears q d) ∧
      (appears e.mask = true → d.toStr ∉ w.watches → w.inst.wdAt d.segs ≠ none →
        Announced vanishes q d)

theorem Lagging.turn (h : Lagging ign w) (hne : w.inst.queue ≠ []) (hok : TurnOrderly ign w) :
    Lagging ign (w.turn ign).1 := by
  obtain ⟨e, q, hq⟩ := List.exists_cons_of_ne_nil hne
  obtain ⟨hover, a, ha, hclean, -, -⟩ := h.queue e (by rw [hq]; exact List.mem_cons_self)
  rw [World.turn, hq]
  dsimp only
  rw [handle_fst, if_neg hover, ha]
  dsimp only
  rw [show a.trim = a from hclean]
  by_cases hi : isIgnored ign a.toStr = true
  · rw [if_pos hi]
    refine h.idle hq fun b hb _ => ?_
    rw [ha] at hb
    exact Option.some.inj hb ▸ hi
  · rw [if_neg hi]
    have hok' := hok e q hq a ha (Bool.eq_false_iff.mpr hi)
    by_cases hap : appears e.mask = true
    · rw [if_pos hap]
      exact h.appear hq ha hap fun d hle hd hi hr hw => (hok' d hle hd hi).2 hap hr hw
    · rw [if_neg hap]
      by_cases hv : vanishes e.mask = true
      · rw [if_pos hv]
        exact h.vanish hq ha fun d hle hd hi => (hok' d hle hd hi).1 hv
      · rw [if_neg hv]
        refine h.idle hq fun b _ hdir => absurd hdir ?_
        rw [dirEvent, Bool.eq_false_iff.mpr hap, Bool.eq_false_iff.mpr hv]
        exact Bool.false_ne_true

end Turn

/-! ### The operations of other processes -/

/-- A root is at or above `l`. -/
def Below (w : World) (l : Loc) : Prop := ∃ r ∈ w.roots, (parse r).segs <+: l

instance (l : Loc) : Decidable (Below w l) :=
  inferInstanceAs (Decidable (∃ r ∈ w.roots, (parse r).segs <+: l))

/-- Above a path under a root and below a root there is the same root. -/
theorem Apart.above (h : Apart w.roots) (hb : Below w l) (hd : Under w.roots d)
    (hp : l <+: d.segs) : Under w.roots ⟨d.dbl, l⟩ := by
  obtain ⟨r, hr, hrd⟩ := hd
  obtain ⟨r', hr', hrl⟩ := hb
  have hrr : r = r' := h.eq_of_above hr hr' hrd.2 (hrl.trans hp)
  exact ⟨r, hr, hrd.1, hrr ▸ hrl⟩

theorem Below.exists_under (h : Below w l) : ∃ b : Bool, Under w.roots ⟨b, l⟩ := by
  obtain ⟨r, hr, hrl⟩ := h
  exact ⟨(parse r).dbl, r, hr, rfl, hrl⟩

/-- The names of the entries below the roots do not end in white space. -/
theorem Lagging.name_clean (h : Lagging ign w) (hb : Below w l)
    (hn : w.inst.fs.node (l ++ [n]) ≠ none) : rstrip n.val = n.val := by
  obtain ⟨b, hu⟩ := hb.exists_under
  exact AbsPath.clean_push_iff.mp (h.names ((⟨b, l⟩ : AbsPath).push n)
    (hu.mono (AbsPath.le_push _ n)) hn)

/-- What happens in a directory to be watched is announced under its path, or something is
announced at or above the directory already. -/
theorem Lagging.notified (h : Lagging ign w) (hd : Present ign w d) :
    (∃ wd, w.inst.wdAt d.segs = some wd ∧ w.inst.label wd = d) ∨
      Announced dirEvent w.inst.queue d := by
  by_cases hr : d.toStr ∈ w.watches
  · rcases h.stale d hr with ⟨-, hl⟩ | hann
    · obtain ⟨wd, hwd, hat⟩ := live_toStr.mp hl
      by_cases e : w.inst.label wd = d
      · exact .inl ⟨wd, hat, e⟩
      · -- the watch is recorded under its label and under `d`
        exact .inr (h.shared d _ wd (Ne.symm e) hwd (h.label _ wd hat).1).dirEvent_of_vanishes
    · exact .inr hann.dirEvent_of_vanishes
  · exact .inr (h.missing d hd hr)

/-- The events of an operation have paths below the roots. -/
theorem Lagging.note (h : Lagging ign w) {mask : Nat} (hn : rstrip n.val = n.val)
    (hm : ¬ mask &&& IN_Q_OVERFLOW ≠ 0) : ∀ e ∈ w.inst.note l n mask,
      ¬ e.mask &&& IN_Q_OVERFLOW ≠ 0 ∧
        ∃ a, e.path = some a ∧ a.Clean ∧ a.segs ≠ [] ∧ Under w.roots a := by
  intro e he
  rw [Inst.note] at he
  split at he
  · rename_i wd hwd
    rw [List.mem_singleton.mp he]
    obtain ⟨k, hk, hu, -⟩ := h.keys _ (mem_of_lookup (h.label l wd hwd).1)
    obtain rfl := AbsPath.toStr_injective hk
    exact ⟨hm, _, rfl, AbsPath.clean_push_iff.mpr hn, by simp [AbsPath.push],
      hu.mono (AbsPath.le_push _ n)⟩
  · cases he

/-- An operation keeps the invariant when the events it queues say what it changes. -/
theorem Lagging.apply_of (h : Lagging ign w) {op : Inst.Op} (evs : List Raw)
    (hq : (w.apply op).inst.queue = w.inst.queue ++ evs)
    (hevs : ∀ e ∈ evs, ¬ e.mask &&& IN_Q_OVERFLOW ≠ 0 ∧
      ∃ a, e.path = some a ∧ a.Clean ∧ a.segs ≠ [] ∧ Under w.roots a)
    (hnames : ∀ d, Under w.roots d → (w.apply op).inst.fs.node d.segs ≠ none → d.Clean)
    (hwd : ∀ m wd, (w.apply op).inst.wdAt m = some wd →
      (∃ m', w.inst.wdAt m' = some wd) ∧ (w.apply op).inst.fs.isDir m = true)
    (hmissing : ∀ d, Present ign (w.apply op) d → Present ign w d ∨
      Announced dirEvent (w.inst.queue ++ evs) d)
    (hstale : ∀ d, Present ign w d → Live w d.toStr →
      (Present ign (w.apply op) d ∧ Live (w.apply op) d.toStr) ∨
        Announced vanishes (w.inst.queue ++ evs) d) : Lagging ign (w.apply op) := by
  have hlabel : (w.apply op).inst.label = w.inst.label := by cases op <;> rfl
  have hold : ∀ {kind : Nat → Bool} {d : AbsPath}, Announced kind w.inst.queue d →
      Announced kind (w.inst.queue ++ evs) d := fun ha =>
    ha.mono fun e he => List.mem_append_left _ he
  refine ⟨h.sound.apply op, h.apart, hnames, h.keys, fun m wd hm => ?_, fun e he => ?_,
    fun d hd hno => ?_, fun d hd => ?_, fun d k wd hne hd hk => ?_⟩
  · obtain ⟨⟨m', hm'⟩, hdir⟩ := hwd m wd hm
    exact ⟨by rw [hlabel]; exact (h.label m' wd hm').1, hdir⟩
  · rw [hq] at he
    rcases List.mem_append.mp he with he | he
    · exact h.queue e he
    · exact hevs e he
  · rw [hq]
    exact (hmissing d hd).elim (fun hp => hold (h.missing d hp hno)) id
  · rw [hq]
    rcases h.stale d hd with ⟨hp, hl⟩ | ha
    · exact hstale d hp hl
    · exact .inr (hold ha)
  · rw [hq]
    exact hold (h.shared d k wd hne hd hk)

section Kinds
variable (b : Bool)

@[simp] theorem appears_create : appears (Inotify.create ||| dirBit b) = b := by
  cases b <;> decide
@[simp] theorem appears_movedTo : appears (movedTo ||| dirBit b) = b := by cases b <;> decide
@[simp] theorem vanishes_delete : vanishes (delete ||| dirBit b) = b := by cases b <;> decide
@[simp] theorem vanishes_movedFrom : vanishes (movedFrom ||| dirBit b) = b := by
  cases b <;> decide

theorem mask_create : ¬ (Inotify.create ||| dirBit b) &&& IN_Q_OVERFLOW ≠ 0 := by
  cases b <;> decide
theorem mask_delete : ¬ (delete ||| dirBit b) &&& IN_Q_OVERFLOW ≠ 0 := by cases b <;> decide
theorem mask_movedFrom : ¬ (movedFrom ||| dirBit b) &&& IN_Q_OVERFLOW ≠ 0 := by
  cases b <;> decide
theorem mask_movedTo : ¬ (movedTo ||| dirBit b) &&& IN_Q_OVERFLOW ≠ 0 := by cases b <;> decide

end Kinds

/-- An event about the entry `n` of `P`, or about what is at or above `P`, announces what is under
the entry. -/
theorem Lagging.announced_entry (h : Lagging ign w) {P : AbsPath} (hP : Present ign w P)
    (hd : P.push n ≤ d) (mask : Nat) (hm : dirEvent mask = true) {evs : List Raw}
    (hevs : ∀ e ∈ w.inst.note P.segs n mask, e ∈ evs) :
    Announced dirEvent (w.inst.queue ++ evs) d := by
  rcases h.notified hP with ⟨wd, hwd, hl⟩ | ha
  · refine ⟨⟨some (P.push n), mask⟩, List.mem_append_right _ (hevs _ ?_), _, rfl, hm, hd⟩
    rw [Inst.note, hwd]
    dsimp only
    rw [hl]
    exact List.mem_singleton.mpr rfl
  · exact (ha.mono fun e he => List.mem_append_left _ he).below ((AbsPath.le_push P n).trans hd)

theorem Lagging.create {b : Bool} (h : Lagging ign w) (hc : w.inst.fs.canCreate l n)
    (hb : Below w l) (hn : rstrip n.val = n.val) :
    Lagging ign (w.apply (.create l n b)) := by
  have hnode : ∀ m, (w.apply (.create l n b)).inst.fs.node m =
      if m = l ++ [n] then some ⟨w.inst.fs.nextIno, b⟩ else w.inst.fs.node m := fun m => by
    rw [inst_apply, Inst.fs_create, Fs.node_create hc, Function.update_apply]
  have hisDir : ∀ m, m ≠ l ++ [n] →
      (w.apply (.create l n b)).inst.fs.isDir m = w.inst.fs.isDir m := fun m hm => by
    rw [Fs.isDir, hnode, if_neg hm, Fs.isDir]
  -- the new entry is an entry of a directory below the roots
  have hnew : ∀ d : AbsPath, Under w.roots d → d.segs = l ++ [n] →
      d = (⟨d.dbl, l⟩ : AbsPath).push n ∧ Under w.roots ⟨d.dbl, l⟩ := fun d hd hs =>
    ⟨by obtain ⟨d₁, d₂⟩ := d; cases hs; rfl,
      h.apart.above hb hd (by rw [hs]; exact List.prefix_append _ _)⟩
  refine h.apply_of _ rfl (h.note hn (mask_create b)) (fun d hd hnd => ?_) (fun m wd hm => ?_)
    (fun d hd => ?_) (fun d hd hl => .inl ⟨⟨hd.1, ?_, hd.2.2⟩, hl.create hc⟩)
  · by_cases hs : d.segs = l ++ [n]
    · rw [(hnew d hd hs).1]
      exact AbsPath.clean_push_iff.mpr hn
    · exact h.names d hd (by rwa [hnode, if_neg hs] at hnd)
  · rw [inst_apply, Inst.wdAt_create hc] at hm
    split at hm
    · cases hm
    · rename_i hs
      exact ⟨⟨m, hm⟩, by rw [hisDir m hs]; exact (h.label m wd hm).2⟩
  · by_cases hs : d.segs = l ++ [n]
    · obtain ⟨he, hu⟩ := hnew d hd.1 hs
      have hbdir : b = true := by
        have := hd.2.1
        rw [Fs.isDir, hnode, if_pos hs] at this
        exact this
      refine .inr (h.announced_entry (n := n) ⟨hu, hc.1, ?_⟩ he.ge _ ?_ fun e he' => he')
      · exact isIgnored_of_le (he ▸ AbsPath.le_push _ n) hd.2.2
      · rw [dirEvent, appears_create, hbdir, Bool.true_or]
    · exact .inl ⟨hd.1, by rw [← hisDir _ hs]; exact hd.2.1, hd.2.2⟩
  · rw [hisDir, hd.2.1]
    intro hs
    have := Fs.node_ne_none_of_isDir hd.2.1
    rw [hs, hc.2] at this
    exact this rfl

/-- The watch on `l`, if there is one, reports its entry `n` at or above `d`. -/
def Notifies (w : World) (l : Loc) (n : Name) (d : AbsPath) : Prop :=
  ∃ wd ∈ w.inst.wdAt l, (w.inst.label wd).push n ≤ d

instance : Decidable (Notifies w l n d) :=
  inferInstanceAs (Decidable (∃ wd ∈ w.inst.wdAt l, (w.inst.label wd).push n ≤ d))

theorem Notifies.announced (h : Notifies w l n d) (mask : Nat) (hm : vanishes mask = true)
    {evs : List Raw} (hevs : ∀ e ∈ w.inst.note l n mask, e ∈ evs) :
    Announced vanishes (w.inst.queue ++ evs) d := by
  obtain ⟨wd, hwd, hle⟩ := h
  refine ⟨⟨some ((w.inst.label wd).push n), mask⟩, List.mem_append_right _ (hevs _ ?_), _, rfl,
    hm, hle⟩
  rw [Inst.note, show w.inst.wdAt l = some wd from hwd]
  exact List.mem_singleton.mpr rfl

theorem Lagging.remove (h : Lagging ign w) (hc : w.inst.fs.canRemove l n) (hb : Below w l)
    (hok : ∀ d, Live w d.toStr → d.segs = l ++ [n] →
      Notifies w l n d ∨ Announced vanishes w.inst.queue d) :
    Lagging ign (w.apply (.remove l n)) := by
  have hnode : ∀ m, (w.apply (.remove l n)).inst.fs.node m =
      if m = l ++ [n] then none else w.inst.fs.node m := fun m => by
    rw [inst_apply, Inst.fs_remove, Fs.node_remove hc, Function.update_apply]
  have hisDir : ∀ m, m ≠ l ++ [n] →
      (w.apply (.remove l n)).inst.fs.isDir m = w.inst.fs.isDir m := fun m hm => by
    rw [Fs.isDir, hnode, if_neg hm, Fs.isDir]
  have hwdAt := Inst.wdAt_remove (s := w.inst) hc
  refine h.apply_of _ rfl (h.note (h.name_clean hb hc.1) (mask_delete _)) (fun d hd hnd => ?_)
    (fun m wd hm => ?_) (fun d hd => .inl ?_) (fun d hd hl => ?_)
  · refine h.names d hd fun hno => hnd ?_
    rw [hnode, hno]
    exact ite_self _
  · rw [inst_apply, hwdAt] at hm
    split at hm
    · cases hm
    · rename_i hs
      exact ⟨⟨m, hm⟩, by rw [hisDir m hs]; exact (h.label m wd hm).2⟩
  · have hs : d.segs ≠ l ++ [n] := fun hs => by
      have := hd.2.1
      rw [Fs.isDir, hnode, if_pos hs] at this
      cases this
    exact ⟨hd.1, by rw [← hisDir _ hs]; exact hd.2.1, hd.2.2⟩
  · by_cases hs : d.segs = l ++ [n]
    · -- the directory that goes: its removal is announced
      refine .inr ((hok d hl hs).elim (fun hnot => hnot.announced _ ?_ fun e he => he) fun ha =>
        ha.mono fun e he => List.mem_append_left _ he)
      rw [vanishes_delete, ← hs]
      exact hd.2.1
    · obtain ⟨wd, hwd, hat⟩ := live_toStr.mp hl
      refine .inl ⟨⟨hd.1, by rw [hisDir _ hs]; exact hd.2.1, hd.2.2⟩, live_toStr.mpr ⟨wd, hwd, ?_⟩⟩
      rw [inst_apply, hwdAt, if_neg hs, hat]

/-- Nothing is under the target of a rename but the target itself. -/
theorem canRename_target {fs : Fs} {b : Loc} {l' : Loc} {n' : Name} {t : Loc}
    (hc : fs.canRename b l' n') (hn : fs.node (l' ++ [n'] ++ t) ≠ none) : t = [] := by
  cases t with
  | nil => rfl
  | cons m t =>
      have hm : fs.node (l' ++ [n'] ++ [m]) ≠ none := by
        by_cases ht : t = []
        · subst ht
          exact hn
        · refine Fs.node_ne_none_of_isDir (Fs.isDir_of_prefix ht ?_)
          simpa using hn
      rcases hc.2.2.2.2 with hnone | ⟨-, hempty⟩
      · exact absurd hnone (Fs.node_ne_none_of_isDir (Fs.isDir_parent hm))
      · exact absurd (Fs.entries_eq_nil.mp hempty m) hm

theorem Lagging.rename {l' : Loc} {n' : Name} (h : Lagging ign w)
    (hc : w.inst.fs.canRename (l ++ [n]) l' n') (hb : Below w l) (hb' : Below w l')
    (hn' : rstrip n'.val = n'.val)
    (hsrc : ∀ d, Live w d.toStr → l ++ [n] <+: d.segs →
      Notifies w l n d ∨ Announced vanishes w.inst.queue d)
    (htgt : ∀ d, Live w d.toStr → d.segs = l' ++ [n'] → Announced vanishes w.inst.queue d) :
    Lagging ign (w.apply (.rename l n l' n')) := by
  have hfs : (w.apply (.rename l n l' n')).inst.fs.node =
      w.inst.fs.movedNode (l ++ [n]) (l' ++ [n']) := Fs.node_rename hc
  have hunder : ∀ t, (w.apply (.rename l n l' n')).inst.fs.node (l' ++ [n'] ++ t) =
      w.inst.fs.node (l ++ [n] ++ t) := fun t => by rw [hfs, Fs.movedNode_under]
  have hdirUnder : ∀ t, (w.apply (.rename l n l' n')).inst.fs.isDir (l' ++ [n'] ++ t) =
      w.inst.fs.isDir (l ++ [n] ++ t) := fun t => by rw [Fs.isDir, hunder, Fs.isDir]
  have hother : ∀ m, ¬ l' ++ [n'] <+: m → ¬ l ++ [n] <+: m →
      (w.apply (.rename l n l' n')).inst.fs.node m = w.inst.fs.node m := fun m hm hm' => by
    rw [hfs, Fs.movedNode_other hm hm']
  have hdirOther : ∀ m, ¬ l' ++ [n'] <+: m → ¬ l ++ [n] <+: m →
      (w.apply (.rename l n l' n')).inst.fs.isDir m = w.inst.fs.isDir m := fun m hm hm' => by
    rw [Fs.isDir, hother m hm hm', Fs.isDir]
  -- what is found under the source is found in a directory
  have hsrcDir : ∀ t, w.inst.fs.isDir (l ++ [n] ++ t) = true →
      w.inst.fs.isDir (l ++ [n]) = true := fun t ht => Fs.isDir_above (List.prefix_append _ _) ht
  refine h.apply_of (w.inst.note l n (movedFrom ||| dirBit (w.inst.fs.isDir (l ++ [n]))) ++
    w.inst.note l' n' (movedTo ||| dirBit (w.inst.fs.isDir (l ++ [n])))) rfl ?_ (fun d hd hnd => ?_)
    (fun m wd hm => ?_) (fun d hd => ?_) (fun d hd hl => ?_)
  · intro e he
    rcases List.mem_append.mp he with he | he
    · exact h.note (h.name_clean hb hc.2.1) (mask_movedFrom _) e he
    · exact h.note hn' (mask_movedTo _) e he
  · by_cases hm : l' ++ [n'] <+: d.segs
    · obtain ⟨t, ht⟩ := hm
      rw [← ht, hunder] at hnd
      obtain ⟨b, s⟩ := d
      obtain rfl : l' ++ [n'] ++ t = s := ht
      rcases List.eq_nil_or_concat' t with rfl | ⟨t, m, rfl⟩
      · rw [List.append_nil]
        exact AbsPath.clean_push_iff (a := ⟨b, l'⟩).mpr hn'
      · rw [← List.append_assoc] at hnd ⊢
        refine AbsPath.clean_push_iff (a := ⟨b, l' ++ [n'] ++ t⟩).mpr (h.name_clean ?_ hnd)
        obtain ⟨r, hr, hrl⟩ := hb
        exact ⟨r, hr, hrl.trans (by rw [List.append_assoc]; exact List.prefix_append _ _)⟩
    · by_cases hm' : l ++ [n] <+: d.segs
      · rw [hfs, Fs.movedNode_gone hm hm'] at hnd
        exact absurd rfl hnd
      · exact h.names d hd (by rwa [hother _ hm hm'] at hnd)
  · by_cases hp : l' ++ [n'] <+: m
    · obtain ⟨t, rfl⟩ := hp
      rw [inst_apply, Inst.wdAt_rename_under hc] at hm
      exact ⟨⟨_, hm⟩, by rw [hdirUnder]; exact (h.label _ wd hm).2⟩
    · rw [inst_apply, Inst.wdAt_rename_other hc hp] at hm
      split at hm
      · cases hm
      · rename_i hp'
        exact ⟨⟨m, hm⟩, by rw [hdirOther m hp hp']; exact (h.label m wd hm).2⟩
  · by_cases hp : l' ++ [n'] <+: d.segs
    · -- it has moved in: its move is announced where the target's directory is watched
      have hu := h.apart.above hb' hd.1 ((List.prefix_append _ _).trans hp)
      have hle : (⟨d.dbl, l'⟩ : AbsPath).push n' ≤ d := ⟨rfl, hp⟩
      have hsd : w.inst.fs.isDir (l ++ [n]) = true := by
        obtain ⟨t, ht⟩ := hp
        have hdir := hd.2.1
        rw [← ht, hdirUnder] at hdir
        exact hsrcDir t hdir
      refine .inr (h.announced_entry (n := n') (P := ⟨d.dbl, l'⟩) ⟨hu, hc.2.2.1, ?_⟩ hle
        (movedTo ||| dirBit (w.inst.fs.isDir (l ++ [n]))) ?_ fun e he =>
          List.mem_append_right _ he)
      · exact isIgnored_of_le ((AbsPath.le_push _ n').trans hle) hd.2.2
      · rw [dirEvent, appears_movedTo, hsd, Bool.true_or]
    · have hp' : ¬ l ++ [n] <+: d.segs := fun hp' => by
        have hdir := hd.2.1
        rw [Fs.isDir, hfs, Fs.movedNode_gone hp hp'] at hdir
        cases hdir
      exact .inl ⟨hd.1, by rw [← hdirOther _ hp hp']; exact hd.2.1, hd.2.2⟩
  · by_cases hp' : l ++ [n] <+: d.segs
    · -- it has moved away: its move is announced
      have hsd : w.inst.fs.isDir (l ++ [n]) = true := by
        obtain ⟨t, ht⟩ := hp'
        exact hsrcDir t (by rw [ht]; exact hd.2.1)
      refine .inr ((hsrc d hl hp').elim (fun hnot => hnot.announced
        (movedFrom ||| dirBit (w.inst.fs.isDir (l ++ [n]))) ?_ fun e he =>
          List.mem_append_left _ he) fun ha => ha.mono fun e he => List.mem_append_left _ he)
      rw [vanishes_movedFrom, hsd]
    · by_cases hp : l' ++ [n'] <+: d.segs
      · obtain ⟨t, ht⟩ := hp
        have hnil : t = [] := canRename_target hc
          (by rw [ht]; exact Fs.node_ne_none_of_isDir hd.2.1)
        rw [hnil, List.append_nil] at ht
        exact .inr ((htgt d hl ht.symm).mono fun e he => List.mem_append_left _ he)
      · obtain ⟨wd, hwd, hat⟩ := live_toStr.mp hl
        refine .inl ⟨⟨hd.1, by rw [hdirOther _ hp hp']; exact hd.2.1, hd.2.2⟩,
          live_toStr.mpr ⟨wd, hwd, ?_⟩⟩
        rw [inst_apply, Inst.wdAt_rename_other hc hp, if_neg hp', hat]

/-! ### The start -/

/-- Every recorded path is live, every live watch labelled, and nothing is queued. -/
structure Settled (w : World) : Prop where
  full : w.inst.full = false
  queue : w.inst.queue = []
  label : Labelled w
  live : ∀ p ∈ w.watches, Live w p

theorem Settled.addWatch (h : Settled w) (ha : w.inst.fs.isDir a.segs = true) :
    Settled (w.addWatch a.toStr) := by
  obtain ⟨hq, hf, -⟩ := addWatch_fields h.full a
  refine ⟨hf, hq.trans h.queue, h.label.addWatch h.full ha, fun p hp => ?_⟩
  rcases addWatch_cases h.full a with ⟨e, -⟩ | ⟨wd, hadd⟩
  · rw [e] at hp ⊢
    exact h.live p hp
  · rcases hadd.mem_iff.mp hp with rfl | hp
    · exact hadd.live_self
    · exact (h.live p hp).addWatch h.full a

section Start
variable {fs : Fs} {R : List Str}

/-- The walks of the roots leave everything settled. -/
theorem Settled.foldl_addRoot (ign : List Str)
    (hnames : ∀ d, Under R d → fs.node d.segs ≠ none → d.Clean) :
    ∀ (rs : List Str) {w : World}, (∀ r ∈ rs, r ∈ R ∧ Spelled r) → Settled w → w.inst.fs = fs →
      Settled (rs.foldl (addRoot ign) w)
  | [], _, _, h, _ => h
  | r :: rs, w, hrs, h, hfs => by
      obtain ⟨hr, a, rfl⟩ := hrs r (by simp)
      refine Settled.foldl_addRoot ign hnames rs (fun r hr => hrs r (by simp [hr])) ?_
        ((addRoot_spec (p := []) h.full a).1.trans hfs)
      rw [addRoot]
      split
      · refine walkAddWatches_induct (P := Settled) h fun w' d hw' hfs' hv _ => ?_
        obtain ⟨t, rfl, -, hd⟩ := hv
        have hclean : (a.extend t).trim = a.extend t := by
          refine hnames _ ⟨_, hr, ?_⟩ (hfs ▸ Fs.node_ne_none_of_isDir hd)
          rw [AbsPath.parse_toStr]
          exact AbsPath.le_extend a t
        rw [hclean]
        exact hw'.addWatch (by rw [hfs']; exact hd)
      · exact h

theorem under_dedup : Under R.dedup d ↔ Under R d := by
  unfold Under
  simp only [List.mem_dedup]

theorem settled_start (hR : ∀ r ∈ R, Normalized r)
    (hnames : ∀ d, Under R d → fs.node d.segs ≠ none → d.Clean) : Settled (start fs ign R) := by
  have hfresh : Settled (fresh fs) := by
    refine ⟨rfl, rfl, fun l wd h => ?_, fun p hp => absurd hp (AList.notMem_empty p)⟩
    obtain ⟨_, -, h⟩ := Inst.wdAt_eq_some.mp h
    cases h
  have hfold := hfresh.foldl_addRoot (R := R) ign hnames
    (addedRoots (fresh fs).roots R.dedup) (fun r hr => ?_) rfl
  · rw [start, setRoots, dedup_map_normalizePath hR]
    exact ⟨hfold.full, hfold.queue, hfold.label, hfold.live⟩
  · have hr' := List.mem_dedup.mp (List.mem_filter.mp hr).1
    exact ⟨hr', (hR r hr').spelled⟩

/-- **At the start nothing lags.** -/
theorem lagging_start (hR : ∀ r ∈ R, Normalized r) (hapart : Apart R)
    (hnames : ∀ d, Under R d → fs.node d.segs ≠ none → d.Clean) :
    Lagging ign (start fs ign R) := by
  have hset : Settled (start fs ign R) := settled_start hR hnames
  obtain ⟨hfs, -, hroots, -⟩ := setRoots_edit (w := fresh fs) rfl hR
  have hmem : ∀ p, p ∈ (start fs ign R).watches ↔ p ∈ target fs ign R := by
    intro p
    have hw : watched fs ign [R] = target fs ign R := (watched_singleton_iff hR).mpr (fun p hp => by
      obtain ⟨r, hr, -, -, d, hle, hd, -, rfl⟩ := hp
      exact (hnames d ⟨r, hr, hle⟩ (Fs.node_ne_none_of_isDir hd)).normalizePath)
    exact Set.ext_iff.mp hw p
  have hroots' : (start fs ign R).roots = R.dedup := hroots
  have hfs' : (start fs ign R).inst.fs = fs := hfs
  have hpres : ∀ d, Present ign (start fs ign R) d ↔ d.toStr ∈ target fs ign R := by
    intro d
    unfold Present
    rw [hroots', hfs', under_dedup]
    constructor
    · rintro ⟨⟨r, hr, hle⟩, hd, hi⟩
      obtain ⟨a, rfl⟩ := (hR r hr).spelled
      rw [AbsPath.parse_toStr] at hle
      refine ⟨_, hr, ?_, isIgnored_of_le hle hi, d, by rwa [AbsPath.parse_toStr], hd, hi, rfl⟩
      rw [AbsPath.parse_toStr]
      exact Fs.isDir_above hle.2 hd
    · rintro ⟨r, hr, -, -, d', hle, hd, hi, he⟩
      obtain rfl := AbsPath.toStr_injective he
      exact ⟨⟨r, hr, hle⟩, hd, hi⟩
  have hsound := sound_start fs ign fun r hr => (hR r hr).1
  generalize start fs ign R = w at *
  have hkeys : ∀ p ∈ w.watches, ∃ d, p = d.toStr ∧ Present ign w d := fun p hp => by
    obtain ⟨r, hr, h₁, h₂, d, h₃, h₄, h₅, rfl⟩ := (hmem p).mp hp
    exact ⟨d, rfl, (hpres d).mpr ⟨r, hr, h₁, h₂, d, h₃, h₄, h₅, rfl⟩⟩
  refine ⟨hsound, ?_, ?_, fun p hp => ?_, hset.label, fun e he => ?_, fun d hd hno => ?_,
    fun d hd => .inl ?_, fun d k wd hne hd hk => ?_⟩
  · rw [hroots']
    intro r hr r' hr'
    exact hapart r (List.mem_dedup.mp hr) r' (List.mem_dedup.mp hr')
  · intro d hd hn
    rw [hroots', under_dedup] at hd
    rw [hfs'] at hn
    exact hnames d hd hn
  · obtain ⟨d, rfl, hu, -, hi⟩ := hkeys p hp
    exact ⟨d, rfl, hu, hi⟩
  · rw [hset.queue] at he
    cases he
  · exact absurd ((hmem _).mpr ((hpres d).mp hd)) hno
  · obtain ⟨d', he, hp⟩ := hkeys _ hd
    obtain rfl := AbsPath.toStr_injective he
    exact ⟨hp, hset.live _ hd⟩
  · -- two recorded paths are live, so they have two watches
    have hat : ∀ d : AbsPath, w.watches.lookup d.toStr = some wd →
        Under w.roots d ∧ w.inst.wdAt d.segs = some wd := fun d hd => by
      obtain ⟨d', he, hp⟩ := hkeys _ (mem_of_lookup hd)
      obtain rfl := AbsPath.toStr_injective he
      obtain ⟨v, hv, hat⟩ := live_toStr.mp (hset.live _ (mem_of_lookup hd))
      rw [hd] at hv
      cases hv
      exact ⟨hp.1, hat⟩
    have hapart' : Apart w.roots := by
      rw [hroots']
      intro r hr r' hr'
      exact hapart r (List.mem_dedup.mp hr) r' (List.mem_dedup.mp hr')
    obtain ⟨hu, hwd⟩ := hat d hd
    obtain ⟨hu', hwd'⟩ := hat k hk
    exact absurd (hapart'.eq_of_segs hu hu' (Inst.wdAt_inj hwd hwd')) hne

end Start

/-! ### Whole runs -/

/-- **Whenever the queue is empty** the recorded paths are the directories to be watched. -/
theorem Lagging.coverage (h : Lagging ign w) (hq : w.inst.queue = []) :
    (∀ p, p ∈ w.watches ↔ ∃ d, Present ign w d ∧ p = d.toStr) ∧ ∀ p ∈ w.watches, Live w p := by
  have hno : ∀ kind d, ¬ Announced kind w.inst.queue d := by
    rintro kind d ⟨e, he, -⟩
    rw [hq] at he
    cases he
  have hkey : ∀ p ∈ w.watches, ∃ d, p = d.toStr ∧ Present ign w d ∧ Live w p := by
    intro p hp
    obtain ⟨d, rfl, -, -⟩ := h.keys p hp
    exact ⟨d, rfl, (h.stale d hp).resolve_right (hno _ d)⟩
  refine ⟨fun p => ⟨fun hp => ?_, ?_⟩, fun p hp => ?_⟩
  · obtain ⟨d, hd, hpres, -⟩ := hkey p hp
    exact ⟨d, hpres, hd⟩
  · rintro ⟨d, hd, rfl⟩
    by_contra hp
    exact hno _ d (h.missing d hd hp)
  · obtain ⟨d, -, -, hl⟩ := hkey p hp
    exact hl

/-- What the environment may do: operations strictly below the roots, under names that do not end
in white space, and no event is lost. -/
def Fair (w : World) : Act → Prop
  | .op (.create l n _) => Below w l ∧ rstrip n.val = n.val
  | .op (.remove l _) => Below w l
  | .op (.rename l _ l' n') => Below w l ∧ Below w l' ∧ rstrip n'.val = n'.val
  | .lose _ => False
  | .turn => True

instance (w : World) : ∀ act, Decidable (Fair w act)
  | .op (.create l n _) => inferInstanceAs (Decidable (Below w l ∧ rstrip n.val = n.val))
  | .op (.remove l _) => inferInstanceAs (Decidable (Below w l))
  | .op (.rename l _ l' n') =>
    inferInstanceAs (Decidable (Below w l ∧ Below w l' ∧ rstrip n'.val = n'.val))
  | .lose _ => .isFalse id
  | .turn => .isTrue trivial

/-- **The steps at which no harm is done.**  A directory with a live watch goes away only with a
removal announced at or above its path, and is replaced by a rename only when one is announced
already; the turns are `TurnOrderly`. -/
def Orderly (ign : List Str) (w : World) : Act → Prop
  | .op (.create _ _ _) => True
  | .op (.remove l n) => ∀ d : AbsPath, Live w d.toStr → d.segs = l ++ [n] →
      Notifies w l n d ∨ Announced vanishes w.inst.queue d
  | .op (.rename l n l' n') =>
    (∀ d : AbsPath, Live w d.toStr → l ++ [n] <+: d.segs →
      Notifies w l n d ∨ Announced vanishes w.inst.queue d) ∧
    ∀ d : AbsPath, Live w d.toStr → d.segs = l' ++ [n'] → Announced vanishes w.inst.queue d
  | .turn => TurnOrderly ign w
  | .lose _ => False

/-- **An orderly step keeps the invariant.** -/
theorem Lagging.next (h : Lagging ign w) {act : Act} (hen : (history ign).enabled w act)
    (hfair : Fair w act) (hok : Orderly ign w act) : Lagging ign ((history ign).next w act) := by
  cases act with
  | op op =>
      cases op with
      | create l n b => exact h.create hen hfair.1 hfair.2
      | remove l n => exact h.remove hen hfair hok
      | rename l n l' n' => exact h.rename hen hfair.1 hfair.2.1 hfair.2.2 hok.1 hok.2
  | lose kept => exact hfair.elim
  | turn => exact h.turn hen hok

/-- **Coverage**: in every run of orderly steps from roots that are apart, whenever the queue is
empty the recorded paths are exactly the existing directories at or under the roots, none of their
names being ignored, and each has a live watch. -/
theorem coverage_of_run {fs : Fs} {R : List Str} {acts : List Act} (hR : ∀ r ∈ R, Normalized r)
    (hapart : Apart R) (hnames : ∀ d, Under R d → fs.node d.segs ≠ none → d.Clean)
    (h : Lts.Run (history ign) (fun w act => Fair w act ∧ Orderly ign w act) (start fs ign R)
      acts w) (hq : w.inst.queue = []) :
    (∀ p, p ∈ w.watches ↔ ∃ d, Under R d ∧ w.inst.fs.isDir d.segs = true ∧
        isIgnored ign d.toStr = false ∧ p = d.toStr) ∧
      ∀ p ∈ w.watches, Live w p := by
  have hlag := h.invariant (lagging_start hR hapart hnames)
    fun _ _ hl hen hg => hl.next hen hg.1 hg.2
  have hroots : w.roots = R.dedup :=
    (roots_history h (sound_start fs ign fun r hr => (hR r hr).1)).trans
    (setRoots_edit (w := fresh fs) rfl hR).2.2.1
  obtain ⟨hmem, hlive⟩ := hlag.coverage hq
  refine ⟨fun p => (hmem p).trans ?_, hlive⟩
  simp only [Present, hroots, under_dedup, and_assoc]

/-! ### A directory renamed over another -/

/-- `/a/x` appears and its event is handled. -/
def arrival : List Act := [.op (.create [.lit "a"] (.lit "x") true), .turn]

theorem run_arrival : Lts.Run (history []) (fun w act => Fair w act ∧ Orderly [] w act)
    (start shelf [] [str "/a"]) arrival
    (arrival.foldl (history []).next (start shelf [] [str "/a"])) := by
  refine .cons (by decide) ⟨by decide, trivial⟩ (.cons (by decide) ⟨trivial, ?_⟩ .nil)
  -- nothing is watched at or under the new directory
  intro e q hq b hb _ d hle hd _
  have hqueue : ((history []).next (start shelf [] [str "/a"])
      (.op (.create [.lit "a"] (.lit "x") true))).inst.queue =
        [⟨some ⟨false, [.lit "a", .lit "x"]⟩, Inotify.create ||| dirBit true⟩] := by decide
  obtain ⟨rfl, rfl⟩ := List.cons.inj (hqueue.symm.trans hq)
  cases hb
  refine ⟨fun hv => absurd hv (by decide), fun _ _ hw => absurd ?_ hw⟩
  have hall : ∀ m ∈ ((history []).next (start shelf [] [str "/a"])
      (.op (.create [.lit "a"] (.lit "x") true))).inst.fs.dom, [.lit "a", .lit "x"] <+: m →
        ((history []).next (start shelf [] [str "/a"])
          (.op (.create [.lit "a"] (.lit "x") true))).inst.wdAt m = none := by decide
  exact hall d.segs (Fs.mem_dom _ (Fs.node_ne_none_of_isDir hd)) hle.2

theorem coverage_arrival :
    (∀ p, p ∈ (arrival.foldl (history []).next (start shelf [] [str "/a"])).watches ↔
      ∃ d, Under [str "/a"] d ∧ (arrival.foldl (history []).next
          (start shelf [] [str "/a"])).inst.fs.isDir d.segs = true ∧
        isIgnored [] d.toStr = false ∧ p = d.toStr) ∧
      ∀ p ∈ (arrival.foldl (history []).next (start shelf [] [str "/a"])).watches,
        Live (arrival.foldl (history []).next (start shelf [] [str "/a"])) p := by
  refine coverage_of_run (by decide) (by decide) (fun d hd hn => ?_) run_arrival (by decide)
  -- only `/a` exists at or under `/a`
  have hdom : shelf.dom = [[.lit "a"], []] := by decide
  have hseg : d.segs ∈ shelf.dom := shelf.mem_dom hn
  rw [hdom] at hseg
  obtain ⟨b, s⟩ := d
  rcases List.mem_cons.mp hseg with rfl | hs
  · cases b <;> decide
  · obtain rfl := List.mem_singleton.mp hs
    cases b <;> decide

/-- `/a/x` and `/a/y` are watched; `/a/x` is renamed over `/a/y`. -/
def replaced : List Act :=
  [.op (.create [.lit "a"] (.lit "x") true), .op (.create [.lit "a"] (.lit "y") true), .turn, .turn,
    .op (.rename [.lit "a"] (.lit "x") [.lit "a"] (.lit "y")), .turn, .turn]

/-- `/a/y` stays recorded with the watch that died with the directory it replaced. -/
theorem coverage_replaced :
    Lts.Run (history []) (fun w act => Fair w act) (start shelf [] [str "/a"]) replaced
        (replaced.foldl (history []).next (start shelf [] [str "/a"])) ∧
      (replaced.foldl (history []).next (start shelf [] [str "/a"])).inst.queue = [] ∧
      str "/a/y" ∈ (replaced.foldl (history []).next (start shelf [] [str "/a"])).watches ∧
      ¬ Live (replaced.foldl (history []).next (start shelf [] [str "/a"])) (str "/a/y") := by
  refine ⟨Lts.run_of_exec (by decide), by decide, by decide, fun h => ?_⟩
  obtain ⟨wd, -, hwd⟩ := h
  have hdead : (replaced.foldl (history []).next (start shelf [] [str "/a"])).inst.wdAt
      (parse (str "/a/y")).segs = none := by decide
  rw [hdead] at hwd
  cases hwd

end World

end MediaScanMonitor
