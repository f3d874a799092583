import DisasVisor.Mm.PageCalls

/-!
Every block of pages is in one situation in every state that the calls can reach, and buddies stay
merged as long as no other call fills a list during a split.
-/

namespace DisasVisor.Mm

open Buddy Transitions List
open Option (some.injEq)

inductive Situation where
  | free
  | live (n : Nat)
  | held (tid : Nat)
  | reserved

def Pages.Is (s : Pages) (b : Nat) : Situation → Prop
  | .free => b ∈ s.buddy.freepage (s.buddy.order b)
  | .live n => s.live b = some n
  | .held tid => s.HeldBy tid b
  | .reserved => s.buddy.type b = .reserved

def Away (b n c m : Nat) : Prop := b + 2 ^ n ≤ c ∨ c + 2 ^ m ≤ b

structure Accounted (s : Pages) : Prop where
  block : ∀ f, f < numOfPages → ∃! b, s.buddy.IsHead b ∧ b ≤ f ∧ f < b + 2 ^ s.buddy.order b
  situation : ∀ b, s.buddy.IsHead b → ∃! place, s.Is b place
  freeBlock : ∀ n b, b ∈ s.buddy.freepage n →
    (s.buddy.freepage n).count b = 1 ∧ s.buddy.type b = .free ∧ s.buddy.order b = n ∧
      2 ^ n ∣ b ∧ b + 2 ^ n ≤ numOfPages ∧
      ∀ g, b < g → g < b + 2 ^ n → s.buddy.type g = .notHead
  listed : ∀ b, b < numOfPages → s.buddy.type b = .free → b ∈ s.buddy.freepage (s.buddy.order b)
  live : ∀ b n, s.live b = some n →
    s.buddy.type b = .allocated ∧ s.buddy.order b = n ∧ 2 ^ n ∣ b ∧ b + 2 ^ n ≤ numOfPages
  apart : ∀ b n c m, s.live b = some n → s.live c = some m → b ≠ c → Away b n c m
  returned : ∀ tid call p t, s.calls tid = some call → call.section s.buddy = .done p t →
    t.type p = .allocated ∧ t.order p = call.order ∧ 2 ^ call.order ∣ p ∧
      p + 2 ^ call.order ≤ numOfPages ∧ s.live p = none ∧
      ∀ b n, s.live b = some n → Away b n p call.order
  assertion : ∀ tid call, s.calls tid = some call → call.section s.buddy ≠ .corrupt

variable {b tid : Nat} {call : Call} {next after : Pages}

theorem Buddy.Tidy.away {s : Buddy} (tidy : s.Tidy) {c : Nat} (bHead : s.IsHead b) (cHead : s.IsHead c) (ne : b ≠ c) :
    Away b (s.order b) c (s.order c) := by
  unfold Away
  by_contra meet
  rw [not_or] at meet
  rcases Nat.lt_or_ge b c with below | above
  · exact tidy.tiling.inside b bHead c below (by omega) cHead
  · exact tidy.tiling.inside c cHead b (by omega) (by omega) bHead

theorem Buddy.Tidy.inside_notHead {s : Buddy} (tidy : s.Tidy) {g : Nat} (bHead : s.IsHead b) (after : b < g)
    (before : g < b + 2 ^ s.order b) : s.type g = .notHead := by
  have page : g < numOfPages := by
    have := tidy.fits bHead
    omega
  by_contra isOther
  exact tidy.tiling.inside b bHead g after before ⟨page, isOther⟩

theorem Owned.situation {s : Pages} (owned : Owned s none) (bHead : s.buddy.IsHead b) : ∃! place, s.Is b place := by
  obtain ⟨page, notInside⟩ := bHead
  have free : b ∈ s.buddy.freepage (s.buddy.order b) ↔ s.buddy.type b = .free := by
    rw [owned.tidy.listed]
    simp [page]
  have liveType : ∀ n, s.live b = some n → s.buddy.type b = .allocated := fun n isLive => (owned.live b n isLive).2.1
  have heldType : ∀ tid, s.HeldBy tid b → s.buddy.type b = .allocated := fun tid held => (owned.heldBy held).1
  cases type : s.buddy.type b with
  | notHead => exact absurd type notInside
  | free =>
    refine ⟨.free, free.mpr type, ?_⟩
    intro place is
    cases place with
    | free => rfl
    | live n => simp [liveType n is] at type
    | held tid => simp [heldType tid is] at type
    | reserved =>
      rw [Pages.Is, type] at is
      cases is
  | reserved =>
    refine ⟨.reserved, type, ?_⟩
    intro place is
    cases place with
    | free => simp [free.mp is] at type
    | live n => simp [liveType n is] at type
    | held tid => simp [heldType tid is] at type
    | reserved => rfl
  | allocated =>
    rcases owned.owner b page type (by simp) with ⟨n, isLive⟩ | ⟨tid, held⟩
    · refine ⟨.live n, isLive, ?_⟩
      intro place is
      cases place with
      | free => simp [free.mp is] at type
      | live m =>
        rw [Pages.Is, isLive, some.injEq] at is
        rw [is]
      | held tid =>
        have notLive := (owned.heldBy is).2
        rw [isLive] at notLive
        cases notLive
      | reserved =>
        rw [Pages.Is, type] at is
        cases is
    · refine ⟨.held tid, held, ?_⟩
      intro place is
      cases place with
      | free => simp [free.mp is] at type
      | live m =>
        have notLive := (owned.heldBy held).2
        rw [Pages.Is, notLive] at is
        cases is
      | held other => rw [owned.apart tid other b held is]
      | reserved =>
        rw [Pages.Is, type] at is
        cases is

theorem Owned.attempts {s : Pages} (owned : Owned s none) (calls : s.calls tid = some call) :
    ∃ start level, Owned start none ∧ start.live = s.live ∧
      call.section s.buddy = Call.attempt start.buddy call.order level := by
  obtain ⟨n, phase⟩ := call
  cases phase with
  | popping level => exact ⟨s, level, owned, rfl, rfl⟩
  | splitting level p => exact ⟨_, level, owned.halve calls, rfl, rfl⟩

theorem Owned.done {s : Pages} (owned : Owned s none) {p : Nat} {t : Buddy} (calls : s.calls tid = some call)
    (done : call.section s.buddy = .done p t) :
    ∃ next, Owned next none ∧ next.buddy = t ∧
      next.live = Function.update s.live p (some call.order) ∧ s.live p = none := by
  have steps := step_locked calls
  rw [done] at steps
  refine ⟨_, owned_locked owned steps, rfl, rfl, ?_⟩
  obtain ⟨start, level, startOwned, live, section_eq⟩ := owned.attempts calls
  rw [section_eq] at done
  rcases attempt_cases startOwned.tidy call.order level with
    ⟨q, u, took, result⟩ | ⟨-, -, result⟩ | ⟨-, result⟩
  · rw [result, Call.returns] at done
    split at done
    · obtain ⟨rfl, rfl⟩ := Outcome.done.inj done
      rw [← live]
      exact (startOwned.take took).spareLive q rfl
    · cases done
  · rw [result] at done
    cases done
  · rw [result] at done
    cases done

theorem Owned.not_corrupt {s : Pages} (owned : Owned s none) (calls : s.calls tid = some call) :
    call.section s.buddy ≠ .corrupt := by
  obtain ⟨start, level, startOwned, -, section_eq⟩ := owned.attempts calls
  rw [section_eq]
  rcases attempt_cases startOwned.tidy call.order level with
    ⟨q, u, -, result⟩ | ⟨-, -, result⟩ | ⟨-, result⟩
  · rw [result, Call.returns]
    split
    · simp
    · simp
  · simp [result]
  · simp [result]

theorem Owned.accounted {s : Pages} (owned : Owned s none) : Accounted s := by
  have liveHead : ∀ b n, s.live b = some n → s.buddy.IsHead b := by
    intro b n isLive
    obtain ⟨page, type, -⟩ := owned.live b n isLive
    exact ⟨page, by simp [type]⟩
  refine ⟨?_, fun b bHead => owned.situation bHead, ?_, ?_, ?_, ?_, ?_, ?_⟩
  · intro f page
    obtain ⟨b, bHead, low, high⟩ := owned.tidy.tiling.covered f page
    refine ⟨b, ⟨bHead, low, high⟩, ?_⟩
    rintro c ⟨cHead, cLow, cHigh⟩
    exact owned.tidy.tiling.unique cHead bHead ⟨cLow, cHigh⟩ ⟨low, high⟩
  · intro n b member
    obtain ⟨page, type, rfl⟩ := (owned.tidy.listed n b).mp member
    have bHead : s.buddy.IsHead b := ⟨page, by simp [type]⟩
    exact ⟨by rw [(owned.tidy.nodup _).count, if_pos member], type, rfl,
      owned.tidy.tiling.aligned b bHead, owned.tidy.fits bHead,
      fun g after before => owned.tidy.inside_notHead bHead after before⟩
  · intro b page type
    exact (owned.tidy.listed _ b).mpr ⟨page, type, rfl⟩
  · intro b n isLive
    obtain ⟨page, type, rfl⟩ := owned.live b n isLive
    have bHead := liveHead b _ isLive
    exact ⟨type, rfl, owned.tidy.tiling.aligned b bHead, owned.tidy.fits bHead⟩
  · intro b n c m bLive cLive ne
    have bOrder := (owned.live b n bLive).2.2
    have cOrder := (owned.live c m cLive).2.2
    rw [← bOrder, ← cOrder]
    exact owned.tidy.away (liveHead b n bLive) (liveHead c m cLive) ne
  · intro tid call p t calls done
    obtain ⟨next, nextOwned, rfl, live, fresh⟩ := owned.done calls done
    have isLive : next.live p = some call.order := by
      rw [live]
      simp
    obtain ⟨page, type, order⟩ := nextOwned.live p _ isLive
    have pHead : next.buddy.IsHead p := ⟨page, by simp [type]⟩
    have aligned := nextOwned.tidy.tiling.aligned p pHead
    have fits := nextOwned.tidy.fits pHead
    rw [order] at aligned fits
    refine ⟨type, order, aligned, fits, fresh, ?_⟩
    intro b n bLive
    have ne : b ≠ p := by
      rintro rfl
      rw [fresh] at bLive
      cases bLive
    have still : next.live b = some n := by rw [live, Function.update_of_ne ne, bLive]
    obtain ⟨bPage, bType, bOrder⟩ := nextOwned.live b n still
    have away := nextOwned.tidy.away ⟨bPage, by simp [bType]⟩ pHead ne
    rwa [bOrder, order] at away
  · exact fun tid call calls => owned.not_corrupt calls

def Pages.Quiet (s : Pages) (event : Event) : Prop :=
  ∀ tid n level p, event = .locked tid →
    s.calls tid = some { order := n, phase := .splitting level p } → s.buddy.freepage level = []

def Pages.QuietStep (s : Pages) (event : Event) (t : Pages) : Prop := s.Step event t ∧ s.Quiet event

variable {s t : Buddy} {n p q : Nat}

theorem Buddy.Took.sublist (took : Took s n p t) {k f : Nat} (member : f ∈ t.freepage k) : f ∈ s.freepage k := by
  by_cases here : k = n
  · subst here
    rw [took.list]
    exact mem_cons_of_mem p member
  · rwa [took.lists k here] at member

theorem Buddy.Took.merged (took : Took s n p t) (merged : s.Merged) : t.Merged :=
  fun k f small member other =>
    merged k f small (took.sublist member) (took.sublist other)

theorem buddyOf_lower (page : p < numOfPages) (small : n < 12) (aligned : 2 ^ (n + 1) ∣ p) :
    buddyOf p n = p + 2 ^ n := by
  rw [buddyOf_eq page small, Dyadic.xor_two_pow_lower aligned]

theorem merged_split (tidy : s.Tidy) (merged : s.Merged) (page : p < numOfPages) (held : s.Held p)
    (order : s.order p = n + 1) (small : n < 12) (empty : s.freepage n = [])
    (took : Took (s.putHalves n p) n q t) : t.Merged := by
  have aligned := tidy.aligned page held order
  have halved := tidy.halved page held order small
  have positive : 0 < 2 ^ n := Nat.two_pow_pos n
  have list := took.list
  rw [halved.list, empty, nil_append, List.cons.injEq] at list
  intro k f low member other
  by_cases here : k = n
  · subst here
    rw [← list.2, mem_singleton] at member other
    rw [← buddyOf_lower page small aligned] at member
    rw [member, buddyOf_buddyOf page] at other
    · omega
    · rw [buddyOf_lower page small aligned]
      have fits := tidy.fits ⟨page, held.ne_notHead⟩
      rw [order, Nat.pow_succ] at fits
      omega
    · exact small
  · have old : ∀ g, g ∈ t.freepage k → g ∈ s.freepage k := by
      intro g inList
      rw [took.lists k here, halved.lists k here] at inList
      exact inList
    exact merged k f low (old f member) (old _ other)

theorem not_merged_split (tidy : s.Tidy) (page : p < numOfPages) (held : s.Held p)
    (order : s.order p = n + 1) (small : n < 12) (filled : s.freepage n ≠ [])
    (took : Took (s.putHalves n p) n q t) : ¬t.Merged := by
  have halved := tidy.halved page held order small
  obtain ⟨first, rest, list⟩ := exists_cons_of_ne_nil filled
  have after := took.list
  rw [halved.list, list, cons_append, List.cons.injEq] at after
  intro merged
  apply merged n p small
  · rw [← after.2]
    simp
  · rw [buddyOf_lower page small (tidy.aligned page held order), ← after.2]
    simp

theorem locked_buddy {s : Buddy} (tidy : s.Tidy) {pages : Pages} {n level : Nat}
    (steps : pages.after tid n (Call.attempt s n level) = some next) :
    (∃ q, Took s level q next.buddy) ∨ (s.freepage level = [] ∧ next.buddy = s) := by
  rcases attempt_cases tidy n level with ⟨q, t, took, result⟩ | ⟨empty, -, result⟩ | ⟨-, result⟩
  · rw [result, Call.returns] at steps
    split at steps
    · simp only [Pages.after, some.injEq] at steps
      rw [← steps]
      exact .inl ⟨q, took⟩
    · simp only [Pages.after, some.injEq] at steps
      rw [← steps]
      exact .inl ⟨q, took⟩
  · rw [result] at steps
    simp only [Pages.after, some.injEq] at steps
    rw [← steps]
    exact .inr ⟨empty, rfl⟩
  · rw [result] at steps
    cases steps

theorem split_took {s : Pages} (owned : Owned s none) {n level p : Nat}
    (calls : s.calls tid = some { order := n, phase := .splitting level p })
    (steps : s.step (.locked tid) = some next) : ∃ q, Took (s.buddy.putHalves level p) level q next.buddy := by
  rw [step_locked calls] at steps
  obtain ⟨-, high, page, type, order, -⟩ := owned.ready tid _ calls
  rw [numOfAllocsize] at high
  have aligned := owned.tidy.tiling.aligned p ⟨page, by simp [type]⟩
  rw [order] at aligned
  rcases locked_buddy (owned.halve calls).tidy steps with took | ⟨empty, -⟩
  · exact took
  · have halved := halved_putHalves (s := s.buddy) page (show level < 12 by omega) aligned
    rw [halved.list] at empty
    simp at empty

theorem merged_step {s : Pages} {event : Event} (owned : Owned s none) (merged : s.buddy.Merged)
    (steps : s.Step event next) (quiet : s.Quiet event) : next.buddy.Merged := by
  cases event with
  | alloc tid n =>
    by_cases starts : s.calls tid = none ∧ n < numOfAllocsize
    · simp only [Pages.Step, Pages.step, if_pos starts, some.injEq] at steps
      rwa [← steps]
    · simp [Pages.Step, Pages.step, if_neg starts] at steps
  | locked tid =>
    cases calls : s.calls tid with
    | none => simp [Pages.Step, Pages.step, calls] at steps
    | some call =>
      obtain ⟨n, phase⟩ := call
      cases phase with
      | popping level =>
        have after := (step_locked calls).symm.trans steps
        rcases locked_buddy owned.tidy after with ⟨q, took⟩ | ⟨-, same⟩
        · exact took.merged merged
        · rwa [same]
      | splitting level p =>
        obtain ⟨-, high, page, type, order, -⟩ := owned.ready tid _ calls
        rw [numOfAllocsize] at high
        obtain ⟨q, took⟩ := split_took owned calls steps
        exact merged_split owned.tidy merged page (.inl type) order (by omega) (quiet tid n level p rfl calls) took
  | free p =>
    cases isLive : s.live p with
    | none => simp [Pages.Step, Pages.step, isLive] at steps
    | some n =>
      simp only [Pages.Step, Pages.step, isLive, some.injEq] at steps
      obtain ⟨page, type, -⟩ := owned.live p n isLive
      rw [← steps]
      exact (freed_mmPageFree owned.tidy page (.inl type)).merged merged
  | freePanicmem =>
    by_cases started : s.panicmemStartPage = 0
    · simp only [Pages.Step, Pages.step, started, if_true, some.injEq] at steps
      rwa [← steps]
    · simp only [Pages.Step, Pages.step, started, if_false, some.injEq] at steps
      rwa [← steps]
  | freePanicPage =>
    cases freeing : s.panicmem with
    | none => simp [Pages.Step, Pages.step, freeing] at steps
    | some state =>
      obtain ⟨start, i⟩ := state
      by_cases more : i < numOfPanicmemPages
      · simp only [Pages.Step, Pages.step, freeing, if_pos more, some.injEq] at steps
        obtain ⟨page, type⟩ := owned.pending (start + i) ⟨i, more, .inr ⟨start, i, freeing, Nat.le_refl i, rfl⟩⟩
        rw [← steps]
        exact (freed_mmPageFree owned.tidy page (.inr type)).merged merged
      · simp [Pages.Step, Pages.step, freeing, more] at steps

theorem not_merged_step {s : Pages} {event : Event} (owned : Owned s none) (steps : s.Step event next)
    (loud : ¬s.Quiet event) : ¬next.buddy.Merged := by
  unfold Pages.Quiet at loud
  simp only [not_forall] at loud
  obtain ⟨tid, n, level, p, rfl, calls, filled⟩ := loud
  obtain ⟨-, high, page, type, order, -⟩ := owned.ready tid _ calls
  rw [numOfAllocsize] at high
  obtain ⟨q, took⟩ := split_took owned calls steps
  exact not_merged_split owned.tidy page (.inl type) order (by omega) filled took

theorem owned_run {image : Image} {events : List Event} (run : Run Pages.Step (Pages.boot image) events after) :
    Owned after none :=
  run.keeps (fun s => Owned s none) (fun _ _ _ steps owned => owned_step owned steps) (owned_boot image)

theorem boot_buddy (image : Image) : (Pages.boot image).buddy = mmInitGlobal image.head image.stop := by
  rw [Pages.boot]

theorem merged_boot (image : Image) : (Pages.boot image).buddy.Merged := by
  rw [boot_buddy]
  have booting := booting_mmInitGlobal image.head image.stop
  exact booting.merged

theorem merged_run {image : Image} {events : List Event} (run : Run Pages.QuietStep (Pages.boot image) events after) :
    after.buddy.Merged := by
  have start : Owned (Pages.boot image) none ∧ (Pages.boot image).buddy.Merged := ⟨owned_boot image, merged_boot image⟩
  have both := run.keeps (fun s => Owned s none ∧ s.buddy.Merged)
    (fun _ _ _ steps sound => ⟨owned_step sound.1 steps.1,
      merged_step sound.1 sound.2 steps.1 steps.2⟩) start
  exact both.2

/-- Whatever the calls do, the pages are accounted for; and buddies below the largest order stay
merged exactly through the locked parts that split a block on an empty list. -/
theorem buddy_allocator (image : Image) :
    (∀ events after, Run Pages.Step (Pages.boot image) events after → Accounted after) ∧
      (∀ events after, Run Pages.QuietStep (Pages.boot image) events after →
        after.buddy.Merged) ∧
      ∀ events before event after, Run Pages.Step (Pages.boot image) events before →
        before.Step event after → ¬before.Quiet event → ¬after.buddy.Merged := by
  refine ⟨fun events after run => (owned_run run).accounted, fun events after => merged_run, ?_⟩
  intro events before event after run steps loud
  exact not_merged_step (owned_run run) steps loud

theorem Buddy.IsHead.free {s : Buddy} {f : Nat} (isHead : s.IsHead f) (notHeld : ¬s.Held f) : s.type f = .free := by
  cases type : s.type f with
  | free => rfl
  | notHead => exact absurd type isHead.2
  | allocated => exact absurd (.inl type) notHeld
  | reserved => exact absurd (.inr type) notHeld

theorem Buddy.Merged.whole {s : Buddy} (merged : s.Merged) (tidy : s.Tidy) (k : Nat) :
    ∀ a, k ≤ 12 → 2 ^ k ∣ a → a + 2 ^ k ≤ numOfPages → (∀ f, a ≤ f → f < a + 2 ^ k → ¬s.Held f) →
      ∃ b, s.IsHead b ∧ b ≤ a ∧ a < b + 2 ^ s.order b ∧ k ≤ s.order b := by
  induction k with
  | zero =>
    intro a _ _ fits _
    obtain ⟨b, bHead, low, high⟩ := tidy.tiling.covered a (by omega)
    exact ⟨b, bHead, low, high, Nat.zero_le _⟩
  | succ k ih =>
    intro a small aligned fits unheld
    have positive : 0 < 2 ^ k := Nat.two_pow_pos k
    have half : 2 ^ k ∣ a := Nat.dvd_trans (Nat.pow_dvd_pow 2 (Nat.le_succ k)) aligned
    rw [Nat.pow_succ] at fits unheld
    obtain ⟨b, bHead, bLow, bHigh, bOrder⟩ := ih a (by omega) half (by omega)
      (fun f low high => unheld f low (by omega))
    obtain ⟨c, cHead, cLow, cHigh, cOrder⟩ := ih (a + 2 ^ k) (by omega)
      (Dyadic.upper_aligned aligned) (by omega) (fun f low high => unheld f (by omega) (by omega))
    have bAligned := tidy.tiling.aligned b bHead
    have cAligned := tidy.tiling.aligned c cHead
    by_cases bLarge : k + 1 ≤ s.order b
    · exact ⟨b, bHead, bLow, bHigh, bLarge⟩
    have bIs : s.order b = k := by omega
    rw [bIs] at bAligned bHigh
    have bSame : b = a := by
      have nested := Dyadic.aligned_nested (Nat.le_refl k) half bAligned ⟨Nat.le_refl a, by omega⟩ ⟨bLow, bHigh⟩
      omega
    subst bSame
    by_cases cLarge : k + 1 ≤ s.order c
    · have nested := Dyadic.aligned_nested cLarge cAligned aligned ⟨cLow, cHigh⟩
        ⟨by omega, by rw [Nat.pow_succ]; omega⟩
      rw [Nat.pow_succ] at nested
      have one := tidy.tiling.unique bHead cHead ⟨Nat.le_refl b, by rw [bIs]; omega⟩ ⟨nested.1, by omega⟩
      rw [← one, bIs] at cLarge
      omega
    have cIs : s.order c = k := by omega
    rw [cIs] at cAligned cHigh
    have cSame : c = b + 2 ^ k := by
      have nested := Dyadic.aligned_nested (Nat.le_refl k) (Dyadic.upper_aligned aligned) cAligned
        ⟨Nat.le_refl _, by omega⟩ ⟨cLow, cHigh⟩
      omega
    have bFree := bHead.free (unheld b (Nat.le_refl b) (by omega))
    have cFree := cHead.free (unheld c (by omega) (by omega))
    refine absurd ?_ (merged k b (by omega) ((tidy.listed k b).mpr ⟨bHead.1, bFree, bIs⟩))
    rw [buddyOf_lower bHead.1 (by omega) aligned, ← cSame]
    exact (tidy.listed k c).mpr ⟨cHead.1, cFree, cIs⟩

theorem Buddy.Merged.largest {s : Buddy} (merged : s.Merged) (tidy : s.Tidy) {a : Nat}
    (aligned : 2 ^ 12 ∣ a) (fits : a + 2 ^ 12 ≤ numOfPages)
    (unheld : ∀ f, a ≤ f → f < a + 2 ^ 12 → ¬s.Held f) : a ∈ s.freepage 12 := by
  obtain ⟨b, bHead, low, high, large⟩ := merged.whole tidy 12 a (Nat.le_refl 12) aligned fits unheld
  have small := tidy.small b bHead
  rw [numOfAllocsize] at small
  have order : s.order b = 12 := by omega
  have bAligned := tidy.tiling.aligned b bHead
  rw [order] at bAligned high
  have same : b = a := by
    omega
  subst same
  exact (tidy.listed 12 b).mpr ⟨bHead.1, bHead.free (unheld b (Nat.le_refl b) (by omega)), order⟩

def smallImage : Image where
  head := 0x40100000
  stop := 0x40101000
  fits := by decide

def largeImage : Image where
  head := 0x40100000
  stop := 0x40000000 + 32509 * 4096
  fits := by decide

theorem foldl_skipped {free : Buddy → Nat → Buddy} (pages : List Nat) (s : Buddy)
    (skips : ∀ s i, i ∈ pages → free s i = s) : pages.foldl free s = s := by
  induction pages with
  | nil => rfl
  | cons i pages ih =>
    rw [foldl_cons, skips s i (by simp)]
    exact ih (fun s j member => skips s j (by simp [member]))

theorem boot_largeImage : (Pages.boot largeImage).buddy =
    ((reservedPages.mmPageFree 32765).mmPageFree 32766).mmPageFree 32767 := by
  have count : numOfPages = 32765 + 3 := by decide
  have tail : (List.range 3).map (32765 + ·) = [32765, 32766, 32767] := by decide
  have panic : panicmemStart largeImage.stop + numOfPanicmemPages = 32765 := by decide
  have stop : largeImage.stop = 0x40000000 + 32509 * 4096 := rfl
  rw [boot_buddy, mmInitGlobal, count, range_add, tail, foldl_append, foldl_skipped (List.range 32765)]
  · have frees : ∀ i, 32765 ≤ i → ∀ s : Buddy,
        (if largeImage.head ≤ pageToVirt i ∧ pageToVirt i < largeImage.stop then s
          else if i < panicmemStart largeImage.stop + numOfPanicmemPages then s
          else s.mmPageFree i) = s.mmPageFree i := by
      intro i high s
      rw [panic, if_neg, if_neg (by omega)]
      rw [stop, pageToVirt, vmmStartVirt, pagesize]
      omega
    rw [foldl_cons, foldl_cons, foldl_cons, foldl_nil, frees 32765 (by omega),
      frees 32766 (by omega), frees 32767 (by omega)]
  · intro s i member
    rw [mem_range] at member
    rw [panic]
    simp [member]

def Pages.steps (s : Pages) (events : List Event) : Option Pages := events.foldlM Pages.step s

theorem Pages.run_of_steps (events : List Event) : ∀ {start : Pages},
    start.steps events = some after → Run Pages.Step start events after := by
  induction events with
  | nil =>
    intro start all
    cases all
    exact Run.nil _
  | cons event events ih =>
    intro start all
    rw [Pages.steps, foldlM_cons, Option.bind_eq_bind, Option.bind_eq_some_iff] at all
    obtain ⟨next, first, rest⟩ := all
    exact Run.cons first (ih rest)

/-- Blocks of the largest order are not merged with their buddies; and below it, a page that is
freed while another call splits is taken in place of a half. -/
theorem buddies_both_free :
    (¬∀ image events after, Run Pages.Step (Pages.boot image) events after →
        ∀ n f, f ∈ after.buddy.freepage n → buddyOf f n ∉ after.buddy.freepage n) ∧
      ¬∀ image events after, Run Pages.Step (Pages.boot image) events after →
        ∀ n f, n < 12 → f ∈ after.buddy.freepage n → buddyOf f n ∉ after.buddy.freepage n := by
  constructor
  · intro never
    have tidy := (owned_boot smallImage).tidy
    have merged := merged_boot smallImage
    have booting := booting_mmInitGlobal smallImage.head smallImage.stop
    have free : ∀ a, 2 ^ 12 ∣ a → 513 ≤ a → a + 2 ^ 12 ≤ numOfPages →
        a ∈ (Pages.boot smallImage).buddy.freepage 12 := by
      intro a aligned above fits
      refine merged.largest tidy aligned fits ?_
      intro f low high
      rw [boot_buddy, booting.held]
      have panic : panicmemStart smallImage.stop + numOfPanicmemPages = 513 := by decide
      rintro (outside | ⟨-, image⟩ | kept)
      · omega
      · have stop : smallImage.stop = 0x40101000 := rfl
        rw [pageToVirt, vmmStartVirt, pagesize, stop] at image
        omega
      · omega
    refine never smallImage [] _ (Run.nil _) 12 24576 (free 24576 ⟨6, rfl⟩ (by decide) (by decide)) ?_
    have buddy : buddyOf 24576 12 = 28672 := by decide
    rw [buddy]
    exact free 28672 ⟨7, rfl⟩ (by decide) (by decide)
  · intro never
    have boot : Pages.boot largeImage = { Pages.boot largeImage with
        buddy := ((reservedPages.mmPageFree 32765).mmPageFree 32766).mmPageFree 32767 } := by
      rw [← boot_largeImage]
    obtain ⟨after, steps, lower, upper⟩ : ∃ after, (Pages.boot largeImage).steps
        [.alloc 0 0, .locked 0, .alloc 0 0, .locked 0, .locked 0, .free 32765, .locked 0] =
          some after ∧
        32766 ∈ after.buddy.freepage 0 ∧ buddyOf 32766 0 ∈ after.buddy.freepage 0 := by
      rw [boot]
      exact ⟨_, rfl, by decide, by decide⟩
    exact never largeImage _ after (Pages.run_of_steps _ steps) 0 32766 (by decide) lower upper

theorem buddy_allocator_boot : Accounted (Pages.boot smallImage) ∧ (Pages.boot smallImage).buddy.Merged :=
  ⟨(buddy_allocator smallImage).1 [] _ (Run.nil _), (buddy_allocator smallImage).2.1 [] _ (Run.nil _)⟩

/-!
The free blocks of `core/mm.c` are determined by the pages that are in use.
-/

namespace Buddy

variable {s t : Buddy} {n b : Nat}

/-- The page is in a block that is not free. -/
def Taken (s : Buddy) (f : Nat) : Prop := ∃ b, s.Held b ∧ s.IsHead b ∧ b ≤ f ∧ f < b + 2 ^ s.order b

theorem Tidy.untaken (tidy : s.Tidy) (free : b ∈ s.freepage n) {f : Nat} (low : b ≤ f) (high : f < b + 2 ^ n) :
    ¬s.Taken f := by
  obtain ⟨page, isFree, order⟩ := (tidy.listed n b).mp free
  rintro ⟨c, held, cHead, inC⟩
  have same := tidy.tiling.unique ⟨page, by rw [isFree]; simp⟩ cHead ⟨low, by rwa [order]⟩ inC
  exact held.ne_free (same ▸ isFree)

/-- A free block is inside a free block of a merged state that has no more pages in use. -/
theorem Merged.inside (merged : t.Merged) (tidy : t.Tidy) (tidy' : s.Tidy) (fewer : ∀ f, t.Taken f → s.Taken f)
    (free : b ∈ s.freepage n) :
    ∃ c, t.IsHead c ∧ c ∈ t.freepage (t.order c) ∧ n ≤ t.order c ∧ c ≤ b ∧ b < c + 2 ^ t.order c := by
  obtain ⟨page, isFree, order⟩ := (tidy'.listed n b).mp free
  have bHead : s.IsHead b := ⟨page, by rw [isFree]; simp⟩
  have untaken : ∀ f, b ≤ f → f < b + 2 ^ n → ¬t.Taken f := fun f low high taken =>
    tidy'.untaken free low high (fewer f taken)
  have fits := tidy'.fits bHead
  have small := tidy'.small b bHead
  rw [order] at fits small
  have unheld : ∀ f, b ≤ f → f < b + 2 ^ n → ¬t.Held f := by
    intro f low high held
    have positive := Nat.two_pow_pos (t.order f)
    exact untaken f low high ⟨f, held, ⟨by omega, held.ne_notHead⟩, Nat.le_refl f, by omega⟩
  obtain ⟨c, cHead, low, high, large⟩ := merged.whole tidy n b (Nat.le_of_lt_succ small)
    (order ▸ tidy'.tiling.aligned b bHead) fits unheld
  have positive := Nat.two_pow_pos n
  have notHeld : ¬t.Held c := fun held => untaken b (Nat.le_refl b) (by omega) ⟨c, held, cHead, low, high⟩
  exact ⟨c, cHead, (tidy.listed _ c).mpr ⟨cHead.1, cHead.free notHeld, rfl⟩, large, low, high⟩

theorem Merged.free_of_free (merged : s.Merged) (merged' : t.Merged) (tidy : s.Tidy) (tidy' : t.Tidy)
    (same : ∀ f, s.Taken f ↔ t.Taken f) (free : b ∈ s.freepage n) : b ∈ t.freepage n := by
  obtain ⟨c, cHead, cFree, large, low, high⟩ := merged'.inside tidy' tidy (fun f => (same f).mpr) free
  obtain ⟨d, dHead, -, larger, below, above⟩ := merged.inside tidy tidy' (fun f => (same f).mp) cFree
  obtain ⟨page, isFree, order⟩ := (tidy.listed n b).mp free
  -- The block `d` around `c` starts where `b` does, so that all three are one.
  have nested := Dyadic.aligned_nested larger (tidy.tiling.aligned d dHead) (tidy'.tiling.aligned c cHead)
    ⟨below, above⟩ ⟨Nat.le_refl c, by omega⟩
  have positive := Nat.two_pow_pos (s.order b)
  obtain rfl : d = b := tidy.tiling.unique dHead ⟨page, by rw [isFree]; simp⟩ (a := b) ⟨by omega, by omega⟩
    ⟨Nat.le_refl b, by omega⟩
  obtain rfl : c = d := by omega
  obtain rfl : n = t.order c := by omega
  exact cFree

end Buddy

variable {image image' : Image} {events events' : List Event} {p q : Pages}

end DisasVisor.Mm
