import Mathlib.Algebra.Order.Floor.Div
import Mathlib.Data.List.Infix
import TemplLayout.Proofs.Text.Counting
import TemplLayout.Sink

/-!
# TemplLayout.Proofs.Document.Delivery

What a sink holds when a document has been delivered to it.

* `Sink.Delivers sink s left d` — `left` is offered from the state `s` on, again and again, and `d` comes
  of it. This is what `Sink.deliver` does (`Sink.delivers_deliver`).
* `Sink.Bounded sink stored portion limit reason` — the sink stores what it takes, at most `portion` bytes
  at a time, and refuses with `reason` once it stores `limit` bytes, as `Sink.bounded` does.

Whatever the sink answers, it has taken a front of the bytes, and all of them exactly when the delivery
succeeds (`Delivers.exists_pending`). What a bounded sink takes is settled by its two bounds
(`Delivers.of_bounded`).
-/

namespace TemplLayout

namespace Sink

variable {σ : Type} {sink : Sink σ}

/-! ## Offer by offer -/

inductive Delivers (sink : Sink σ) : σ → Bytes → Delivery → Prop
  | done {s : σ} : Delivers sink s [] ⟨[], 0, .ok ()⟩
  | refused {s s' : σ} {left : Bytes} {reason : String} : left ≠ [] →
      sink.take s left = (.error reason, s') →
      Delivers sink s left ⟨[], 1, .error (.refused reason)⟩
  | tookNothing {s s' : σ} {left : Bytes} : left ≠ [] → sink.take s left = (.ok 0, s') →
      Delivers sink s left ⟨[], 1, .error .tookNothing⟩
  | took {s s' : σ} {left : Bytes} {n : Nat} {d : Delivery} : left ≠ [] →
      sink.take s left = (.ok (n + 1), s') → Delivers sink s' (left.drop (n + 1)) d →
      Delivers sink s left ⟨left.take (n + 1) ++ d.held, d.offers + 1, d.outcome⟩

theorem exists_delivers_deliverOnto (sink : Sink σ) (s : σ) (held : Bytes) (offers : Nat)
    (left : Bytes) : ∃ d, sink.Delivers s left d ∧ sink.deliverOnto s held offers left =
      ⟨held.reverse ++ d.held, offers + d.offers, d.outcome⟩ := by
  fun_induction deliverOnto sink s held offers left with
  | case1 s held offers => exact ⟨_, .done, by simp⟩
  | case2 s held offers left hne reason s' htake => exact ⟨_, .refused hne htake, by simp⟩
  | case3 s held offers left hne s' htake => exact ⟨_, .tookNothing hne htake, by simp⟩
  | case4 s held offers left hne n s' htake ih =>
    obtain ⟨d, hd, heq⟩ := ih
    refine ⟨_, .took hne htake hd, ?_⟩
    rw [heq, List.reverseAux_eq, List.reverse_append, List.reverse_reverse, List.append_assoc,
      Nat.add_assoc, Nat.add_comm 1]

theorem delivers_deliver (sink : Sink σ) (s : σ) (bytes : Bytes) :
    sink.Delivers s bytes (sink.deliver s bytes) := by
  obtain ⟨d, hd, heq⟩ := exists_delivers_deliverOnto sink s [] 0 bytes
  have hsame : sink.deliver s bytes = d := by
    rw [deliver, heq, List.reverse_nil, List.nil_append, Nat.zero_add]
  rwa [hsame]

/-- What was not taken is what is missing behind the bytes taken. Nothing is missing exactly when the
delivery succeeds. -/
theorem Delivers.exists_pending {s : σ} {left : Bytes} {d : Delivery}
    (h : sink.Delivers s left d) :
    ∃ pending, d.held ++ pending = left ∧ (d.outcome = .ok () ↔ pending = []) := by
  induction h with
  | done => exact ⟨[], rfl, by simp⟩
  | @refused s s' left reason hne _ => exact ⟨left, rfl, by simp [hne]⟩
  | @tookNothing s s' left hne _ => exact ⟨left, rfl, by simp [hne]⟩
  | @took s s' left n d _ _ _ ih =>
    obtain ⟨pending, happend, hok⟩ := ih
    refine ⟨pending, ?_, hok⟩
    rw [List.append_assoc, happend, List.take_append_drop]

/-! ## Bounded sinks -/

structure Bounded (sink : Sink σ) (stored : σ → Nat) (portion limit : Nat) (reason : String) :
    Prop where
  refuses : ∀ s offered, limit ≤ stored s → (sink.take s offered).1 = .error reason
  takes : ∀ s offered, stored s < limit →
    (sink.take s offered).1 = .ok (min offered.length (min portion (limit - stored s)))
  stores : ∀ s offered, stored s < limit → stored (sink.take s offered).2 =
    stored s + min offered.length (min portion (limit - stored s))

theorem bounded_bounded (portion limit : Nat) :
    (bounded (some portion) (some limit)).Bounded id portion limit "disk full" where
  refuses held offered h := by
    have hfull : (some limit).any (· ≤ held) = true := by simpa using h
    simp only [bounded, if_pos hfull]
  takes held offered h := by
    have hroom : ¬ (some limit).any (· ≤ held) = true := by simpa using h
    simp only [bounded, if_neg hroom]
    simp [Nat.min_comm, Nat.min_left_comm]
  stores held offered h := by
    have hroom : ¬ (some limit).any (· ≤ held) = true := by simpa using h
    simp only [bounded, if_neg hroom]
    simp [Nat.min_comm, Nat.min_left_comm]

/-- One portion less is one offer less. -/
theorem ceilDiv_sub_min {n portion : Nat} (hn : 0 < n) (hp : 0 < portion) :
    (n - min portion n) ⌈/⌉ portion + 1 = n ⌈/⌉ portion := by
  rcases Nat.le_total n portion with hle | hle
  · have hone : (n + portion - 1) / portion = 1 := Nat.div_eq_of_lt_le (by omega) (by omega)
    rw [Nat.min_eq_right hle, Nat.sub_self, zero_ceilDiv, Nat.ceilDiv_eq_add_pred_div, hone]
  · have hsum : n - portion + portion - 1 + portion = n + portion - 1 := by omega
    rw [Nat.min_eq_left hle, Nat.ceilDiv_eq_add_pred_div, Nat.ceilDiv_eq_add_pred_div,
      ← Nat.add_div_right _ hp, hsum]

section

variable {stored : σ → Nat} {portion limit : Nat} {reason : String}

theorem Bounded.lt_of_take_eq_ok (hb : sink.Bounded stored portion limit reason) {s s' : σ}
    {offered : Bytes} {n : Nat} (h : sink.take s offered = (.ok n, s')) :
    stored s < limit ∧ n = min offered.length (min portion (limit - stored s)) ∧
      stored s' = stored s + n := by
  rcases Nat.lt_or_ge (stored s) limit with hroom | hfull
  · have htakes := hb.takes s offered hroom
    have hstores := hb.stores s offered hroom
    rw [h] at htakes hstores
    obtain rfl := Except.ok.inj htakes
    exact ⟨hroom, rfl, hstores⟩
  · have hrefuses := hb.refuses s offered hfull
    rw [h] at hrefuses
    cases hrefuses

theorem Bounded.le_of_take_eq_error (hb : sink.Bounded stored portion limit reason) {s s' : σ}
    {offered : Bytes} {reason' : String} (h : sink.take s offered = (.error reason', s')) :
    limit ≤ stored s ∧ reason' = reason := by
  rcases Nat.lt_or_ge (stored s) limit with hroom | hfull
  · have htakes := hb.takes s offered hroom
    rw [h] at htakes
    cases htakes
  · have hrefuses := hb.refuses s offered hfull
    rw [h] at hrefuses
    exact ⟨hfull, Except.error.inj hrefuses⟩

/-- A portion at a time, until everything is taken or there is no room; then the sink refuses. -/
theorem Delivers.of_bounded (hb : sink.Bounded stored portion limit reason) (hp : 0 < portion)
    {s : σ} {left : Bytes} {d : Delivery} (h : sink.Delivers s left d) :
    let room := limit - stored s
    d = ⟨left.take room,
      min left.length room ⌈/⌉ portion + (if room < left.length then 1 else 0),
      if room < left.length then .error (.refused reason) else .ok ()⟩ := by
  induction h with
  | done => simp
  | @refused s s' left reason' hne htake =>
    obtain ⟨hfull, rfl⟩ := hb.le_of_take_eq_error htake
    have hpos := List.length_pos_iff.2 hne
    simp [Nat.sub_eq_zero_of_le hfull, hpos]
  | @tookNothing s s' left hne htake =>
    obtain ⟨hroom, hnone, -⟩ := hb.lt_of_take_eq_ok htake
    have hpos := List.length_pos_iff.2 hne
    omega
  | @took s s' left n d hne htake _ ih =>
    obtain ⟨hroom, hn, hstored⟩ := hb.lt_of_take_eq_ok htake
    have hpos := List.length_pos_iff.2 hne
    obtain ⟨rest, hrest⟩ : ∃ rest, limit - stored s = n + 1 + rest :=
      Nat.exists_eq_add_of_le (by omega)
    have hleft : limit - stored s' = rest := by omega
    have hmore : rest < left.length - (n + 1) ↔ n + 1 + rest < left.length := by omega
    have htotal : min (left.length - (n + 1)) rest =
        min left.length (n + 1 + rest) - min portion (min left.length (n + 1 + rest)) := by
      omega
    rw [hleft, List.length_drop] at ih
    simp only [ih, hrest, hmore, htotal, Delivery.mk.injEq, and_true]
    constructor
    · exact List.take_add.symm
    · rw [Nat.add_right_comm, ceilDiv_sub_min (by omega) hp]

end

end Sink

/-! ## Documents -/

theorem Document.render_ne_nil (d : Document) : d.render ≠ [] := by
  simp [Document.render, Package.render]

/-- A sink holds a front of the document, and the whole of it exactly when the delivery succeeds. An empty
sink with room for the whole takes it in as few portions as there can be; without, it is full when it
refuses. -/
theorem deliver_render (d : Document) :
    (∀ (σ : Type) (sink : Sink σ) (s : σ),
      (d.deliver sink s).held <+: d.render.utf8 ∧
      ((d.deliver sink s).held = d.render.utf8 ↔ (d.deliver sink s).outcome = .ok ())) ∧
    0 < d.render.utf8.length ∧
    ∀ (σ : Type) (sink : Sink σ) (stored : σ → Nat) (portion limit : Nat) (reason : String) (s : σ),
      sink.Bounded stored portion limit reason → 0 < portion → stored s = 0 →
      let n := d.render.utf8.length
      (n ≤ limit → d.deliver sink s = ⟨d.render.utf8, n ⌈/⌉ portion, .ok ()⟩) ∧
      (limit < n → d.deliver sink s =
        ⟨d.render.utf8.take limit, limit ⌈/⌉ portion + 1, .error (.refused reason)⟩) := by
  refine ⟨fun σ sink s => ?_, ?_, fun σ sink stored portion limit reason s hb hp hs => ?_⟩
  · obtain ⟨pending, happend, hok⟩ := (sink.delivers_deliver s d.render.utf8).exists_pending
    refine ⟨⟨pending, happend⟩, ?_⟩
    rw [Document.deliver, hok]
    constructor
    · intro hheld
      rwa [hheld, List.append_right_eq_self] at happend
    · rintro rfl
      rwa [List.append_nil] at happend
  · rw [List.length_pos_iff]
    intro hnil
    exact d.render_ne_nil (Text.length_utf8_eq_zero_iff.1 (List.length_eq_zero_iff.2 hnil))
  · have hdelivery := (sink.delivers_deliver s d.render.utf8).of_bounded hb hp
    rw [hs, Nat.sub_zero] at hdelivery
    constructor
    · intro hle
      have hfits := Nat.not_lt.2 hle
      rw [Document.deliver, hdelivery, List.take_of_length_le hle, Nat.min_eq_left hle,
        if_neg hfits, if_neg hfits, Nat.add_zero]
    · intro hlt
      rw [Document.deliver, hdelivery, Nat.min_eq_right hlt.le, if_pos hlt, if_pos hlt]

/-- The limit is inside a character of two bytes, and not a number of whole portions. -/
theorem deliver_render_split :
    let d : Document := ⟨⟨"é".toList, .empty, .start⟩, [], none, []⟩
    d.render = "\x7b% package é %\x7d\n\n".toList ∧
    d.deliver (.bounded (some 5) (some 18)) 0 = ⟨d.render.utf8, 4, .ok ()⟩ ∧
    d.deliver (.bounded (some 5) (some 12)) 0 =
      ⟨d.render.utf8.take 12, 4, .error (.refused "disk full")⟩ ∧
    Text.ofUtf8? (d.render.utf8.take 12) = none := by
  intro d
  have hlength : d.render.utf8.length = 18 := by decide +kernel
  obtain ⟨-, -, hbounded⟩ := deliver_render d
  have hwhole := hbounded Nat _ id 5 18 "disk full" 0 (Sink.bounded_bounded 5 18) (by decide) rfl
  have hfront := hbounded Nat _ id 5 12 "disk full" 0 (Sink.bounded_bounded 5 12) (by decide) rfl
  rw [hlength] at hwhole hfront
  exact ⟨by decide +kernel, hwhole.1 (by decide), hfront.2 (by decide), by decide +kernel⟩

end TemplLayout
