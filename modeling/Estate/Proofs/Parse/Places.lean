import Estate.Proofs.Parse.Answers
import Estate.Proofs.Refusal

/-!
# Reading at another place

A cursor knows how far into the text it is, and parsers note that in spans and in failures.  Nothing
else depends on it: where the same text is left further on, a parser answers the same with all
places moved on by as much.  There is one lemma for each way to compose parsers.  A report also
shows the token at the furthest failure, and that stands at the moved place in the longer text.

* `Cursor.moved`, `Spanned.moved`, `Failure.moved`, `Report.moved` — the same at a later place.
* `Failure.report_moved` — the report of a failure moves along, if anything failed at all.
* `Parser.Moves` — a parser answers at a later place as another one does here.
* `Reply.Moved.toExcept` — what is read behind a prefix is what is read without it.
-/

namespace Estate.Parse

open Estate.Text

variable {α α' β β' : Type} {k : Nat}

/-! ## Places further on -/

/-- The same text further on. -/
def Cursor.moved (k : Nat) (c : Cursor) : Cursor :=
  ⟨c.offset + k, c.rest⟩

/-- The same bytes further on. -/
def Span.moved (k : Nat) (s : Span) : Span :=
  ⟨s.start + k, s.stop + k⟩

/-- A value that was read further on, and changed because of the places in it. -/
def Spanned.moved (k : Nat) (f : α → β) (s : Spanned α) : Spanned β :=
  ⟨s.span.moved k, f s.value⟩

/-- A failure further on. -/
def Leaf.moved (k : Nat) (l : Leaf) : Leaf :=
  { l with offset := l.offset + k }

/-- A report about something further on. -/
def Report.moved (k : Nat) (r : Report) : Report :=
  { r with offset := r.offset + k }

/-- Complaints about another text, in which everything lies further on. -/
def Errors.movedTo (source : String) (k : Nat) (e : Errors) : Errors :=
  ⟨source, e.reports.map (·.moved k)⟩

lemma Cursor.finish_moved (k : Nat) (c : Cursor) : (c.moved k).finish = c.finish + k :=
  Nat.add_right_comm _ _ _

namespace Failure

mutual

/-- The same failures further on. -/
def moved (k : Nat) : Failure → Failure
  | leaf offset expected => leaf (offset + k) expected
  | either branches => either (movedAll k branches)
  | within inner contexts => within (moved k inner) contexts

/-- The same for all branches. -/
def movedAll (k : Nat) : List Failure → List Failure
  | [] => []
  | f :: fs => moved k f :: movedAll k fs

end

mutual

lemma leavesIn_moved (k : Nat) (context : Option String) : ∀ f : Failure,
    (f.moved k).leavesIn context = (f.leavesIn context).map (·.moved k)
  | leaf offset expected => by
      rw [moved, leavesIn, leavesIn]
      rfl
  | either branches => by
      rw [moved, leavesIn, leavesIn, leavesInAll_moved k context branches]
  | within inner contexts => by
      rw [moved, leavesIn, leavesIn, leavesIn_moved k _ inner]

lemma leavesInAll_moved (k : Nat) (context : Option String) : ∀ fs : List Failure,
    leavesInAll context (movedAll k fs) = (leavesInAll context fs).map (·.moved k)
  | [] => by
      rw [movedAll, leavesInAll]
      rfl
  | f :: fs => by
      rw [movedAll, leavesInAll, leavesInAll, leavesIn_moved k context f,
        leavesInAll_moved k context fs, List.map_append]

end

variable {f : Failure}

lemma leaves_moved (k : Nat) (f : Failure) : (f.moved k).leaves = f.leaves.map (·.moved k) :=
  leavesIn_moved k none f

/-- **If anything failed, the furthest failure moves along.** -/
lemma furthest_moved (k : Nat) (h : f.leaves ≠ []) : (f.moved k).furthest = f.furthest + k := by
  have hmore : ∀ (ls : List Leaf) (offset : Nat),
      (ls.map (·.moved k)).foldl (fun offset l => max offset l.offset) (offset + k) =
        ls.foldl (fun offset l => max offset l.offset) offset + k := by
    intro ls
    induction ls with
    | nil => exact fun _ => rfl
    | cons l ls ih =>
        intro offset
        have hmax : max (offset + k) (l.moved k).offset = max offset l.offset + k :=
          (Nat.add_max_add_right offset l.offset k)
        rw [List.map_cons, List.foldl_cons, List.foldl_cons, hmax, ih]
  obtain ⟨l, ls, hleaves⟩ := List.exists_cons_of_ne_nil h
  rw [furthest, furthest, leaves_moved, hleaves, List.map_cons, List.foldl_cons, List.foldl_cons,
    Nat.zero_max, Nat.zero_max]
  exact hmore ls l.offset

lemma furthestLeaves_moved (k : Nat) (h : f.leaves ≠ []) :
    (f.moved k).furthestLeaves = f.furthestLeaves.map (·.moved k) := by
  rw [furthestLeaves, furthestLeaves, furthest_moved k h, leaves_moved, List.filter_map]
  refine congrArg _ (List.filter_congr fun l _ => ?_)
  simp [Leaf.moved]

lemma expected_moved (k : Nat) (h : f.leaves ≠ []) : (f.moved k).expected = f.expected := by
  rw [expected, expected, furthestLeaves_moved k h, List.filterMap_map]
  rfl

lemma context?_moved (k : Nat) (h : f.leaves ≠ []) : (f.moved k).context? = f.context? := by
  rw [context?, context?, furthestLeaves_moved k h, List.findSome?_map]
  rfl

end Failure

/-! ## Behind a prefix -/

/-- Behind a prefix the bytes are those of the rest. -/
lemma dropBytes?_append_add (as bs : List Char) (n : Nat) :
    dropBytes? (as ++ bs) (n + byteLength as) = dropBytes? bs n := by
  induction as with
  | nil => rfl
  | cons c cs ih =>
      have hpos := c.utf8Size_pos
      obtain ⟨m, hm⟩ : ∃ m, n + byteLength (c :: cs) = m + 1 :=
        ⟨n + byteLength (c :: cs) - 1, by rw [byteLength]; omega⟩
      rw [byteLength] at hm
      rw [byteLength, hm, List.cons_append, dropBytes?, if_pos (by omega),
        show m + 1 - c.utf8Size = n + byteLength cs by omega, ih]

/-- The token behind a prefix. -/
lemma tokenAt_append (front back : String) (offset : Nat) :
    tokenAt (front ++ back) (offset + byteLength front.toList) = tokenAt back offset := by
  rw [tokenAt, tokenAt, String.toList_append, dropBytes?_append_add]

/-- **The report of a failure moves along** with a prefix of the text. -/
lemma Failure.report_moved (front back : String) {f : Failure} (h : f.leaves ≠ []) :
    (f.moved (byteLength front.toList)).report (front ++ back) =
      (f.report back).moved (byteLength front.toList) := by
  rw [report, report, Report.moved, context?_moved _ h, furthest_moved _ h, expected_moved _ h,
    tokenAt_append]

/-- The place behind a prefix. -/
lemma Cursor.at_append (front back : String) :
    Cursor.at (front ++ back) (byteLength front.toList) =
      (Cursor.start back).moved (byteLength front.toList) := by
  have hrest := dropBytes?_append front.toList back.toList
  rw [Cursor.at, String.toList_append, byteLength_append,
    show (Cursor.start back).moved (byteLength front.toList) =
      ⟨byteLength front.toList, back.toList⟩ from congrArg (Cursor.mk · _) (Nat.zero_add _)]
  split
  · next hend =>
      -- Nothing takes up no bytes.
      have hnone : back.toList = [] := by
        cases hback : back.toList with
        | nil => rfl
        | cons c cs =>
            have hpos := c.utf8Size_pos
            rw [hback, byteLength] at hend
            omega
      rw [hnone]
      rfl
  · rw [hrest]

/-! ## Answers further on -/

/-- **An answer further on**: it is done with a changed value and the same text left, or it fails in
the same way.  A failure says of at least one place what was expected there. -/
inductive Reply.Moved (k : Nat) (f : α → β) : Reply α → Reply β → Prop
  | done (a : α) (c : Cursor) : Moved k f (.done a c) (.done (f a) (c.moved k))
  | miss {e : Failure} (leaves : e.leaves ≠ []) : Moved k f (.miss e) (.miss (e.moved k))
  | fatal {e : Failure} (leaves : e.leaves ≠ []) : Moved k f (.fatal e) (.fatal (e.moved k))

namespace Reply.Moved

variable {f : α → α'} {reply : Reply α} {reply' : Reply α'}

lemma map {g : β → β'} {h : α → β} {h' : α' → β'} (hm : reply.Moved k f reply')
    (hcomm : ∀ a, h' (f a) = g (h a)) : (reply.map h).Moved k g (reply'.map h') := by
  cases hm with
  | done a c =>
      rw [Reply.map, Reply.map, hcomm]
      exact .done (h a) c
  | miss leaves => exact .miss leaves
  | fatal leaves => exact .fatal leaves

/-- **What is read behind a prefix** is what is read without it, and the complaints are the same. -/
lemma toExcept {front back : String} (h : reply.Moved (byteLength front.toList) f reply') :
    reply'.toExcept (front ++ back) = ((reply.toExcept back).map f).mapError
      (Errors.movedTo (front ++ back) (byteLength front.toList)) := by
  cases h with
  | done a c => rfl
  | miss leaves =>
      simp only [Reply.toExcept, Errors.ofFailure, Failure.report_moved front back leaves]
      rfl
  | fatal leaves =>
      simp only [Reply.toExcept, Errors.ofFailure, Failure.report_moved front back leaves]
      rfl

end Reply.Moved

namespace Parser

variable {p : Parser α} {p' : Parser α'} {f : α → α'}

/-- **A parser answers further on as another one does here**, with changed values. -/
def Moves (k : Nat) (f : α → α') (p : Parser α) (p' : Parser α') : Prop :=
  ∀ c : Cursor, (p c).Moved k f (p' (c.moved k))

namespace Moves

lemma pure {a : α} {a' : α'} (h : f a = a') : Moves k f (Pure.pure a) (Pure.pure a') := fun c =>
  h ▸ .done a c

lemma expected (wanted : String) : Moves k f (expected wanted) (expected wanted) := fun _ =>
  .miss (List.cons_ne_nil _ _)

lemma bind {g : β → β'} {q : α → Parser β} {q' : α' → Parser β'} (hp : Moves k f p p')
    (hq : ∀ a, Moves k g (q a) (q' (f a))) : Moves k g (p >>= q) (p' >>= q') := fun c => by
  have hreply := hp c
  simp only [Bind.bind]
  generalize p c = reply at hreply
  generalize p' (c.moved k) = reply' at hreply
  cases hreply with
  | done a d => exact hq a d
  | miss leaves => exact .miss leaves
  | fatal leaves => exact .fatal leaves

lemma orElse {q : Parser α} {q' : Parser α'} (hp : Moves k f p p') (hq : Moves k f q q') :
    Moves k f (p <|> q) (p' <|> q') := fun c => by
  show (p.orElse q c).Moved k f (p'.orElse q' (c.moved k))
  have hfirst := hp c
  have hsecond := hq c
  rw [Parser.orElse, Parser.orElse]
  generalize p c = reply at hfirst
  generalize p' (c.moved k) = reply' at hfirst
  cases hfirst with
  | done a d => exact .done a d
  | fatal leaves => exact .fatal leaves
  | @miss e leaves =>
      generalize q c = reply at hsecond
      generalize q' (c.moved k) = reply' at hsecond
      cases hsecond with
      | done a d => exact .done a d
      | fatal leaves => exact .fatal leaves
      | @miss e' _ =>
          have hmoved : Failure.either [e.moved k, e'.moved k] = (Failure.either [e, e']).moved k := by
            rw [Failure.moved, Failure.movedAll, Failure.movedAll, Failure.movedAll]
          dsimp only
          rw [hmoved]
          refine .miss fun hnone => leaves ?_
          rw [Failure.leaves, Failure.leavesIn, Failure.leavesInAll] at hnone
          exact (List.append_eq_nil_iff.1 hnone).1

lemma commit (hp : Moves k f p p') : Moves k f p.commit p'.commit := fun c => by
  have hreply := hp c
  rw [Parser.commit, Parser.commit]
  generalize p c = reply at hreply
  generalize p' (c.moved k) = reply' at hreply
  cases hreply with
  | done a d => exact .done a d
  | miss leaves => exact .fatal leaves
  | fatal leaves => exact .fatal leaves

lemma optional (hp : Moves k f p p') : Moves k (Option.map f) p.optional p'.optional := fun c => by
  have hreply := hp c
  rw [Parser.optional, Parser.optional]
  generalize p c = reply at hreply
  generalize p' (c.moved k) = reply' at hreply
  cases hreply with
  | done a d => exact .done (some a) d
  | miss leaves => exact .done none c
  | fatal leaves => exact .fatal leaves

lemma spanned (hp : Moves k f p p') : Moves k (Spanned.moved k f) p.spanned p'.spanned := fun c => by
  have hreply := hp c
  rw [Parser.spanned, Parser.spanned]
  generalize p c = reply at hreply
  generalize p' (c.moved k) = reply' at hreply
  cases hreply with
  | done a d => exact .done (Spanned.mk ⟨c.offset, d.offset⟩ a) d
  | miss leaves => exact .miss leaves
  | fatal leaves => exact .fatal leaves

lemma many (hp : Moves k f p p') : Moves k (List.map f) (Parser.many p) (Parser.many p') := by
  -- By induction on what is left, which is the same in both repetitions in every round.
  intro c
  induction hlength : c.rest.length using Nat.strongRecOn generalizing c with
  | ind n ih =>
      have hreply := hp c
      rw [Parser.many, Parser.many]
      generalize p c = reply at hreply
      generalize p' (c.moved k) = reply' at hreply
      cases hreply with
      | miss leaves => exact .done [] c
      | fatal leaves => exact .fatal leaves
      | done a d =>
          show Reply.Moved k (List.map f)
            (if d.rest.length < c.rest.length then _ else _)
            (if d.rest.length < c.rest.length then (Parser.many p' (d.moved k)).map (f a :: ·) else
              .miss ((Failure.leaf c.offset .unspecified).moved k))
          split
          · next hless => exact (ih _ (hlength ▸ hless) d rfl).map fun _ => rfl
          · exact .miss (List.cons_ne_nil _ _)

lemma sepBy1 {g : β → β'} {separator : Parser β} {separator' : Parser β'}
    (hs : Moves k g separator separator') (hp : Moves k f p p') :
    Moves k (List.map f) (Parser.sepBy1 separator p) (Parser.sepBy1 separator' p') :=
  hp.bind fun _ => (many (hs.bind fun _ => hp)).bind fun _ => pure rfl

end Moves

/-- **A parser reads the same** wherever the same text is left. -/
def Placeless (p : Parser α) : Prop :=
  ∀ k, Moves k (fun a => a) p p

namespace Placeless

variable {q : Parser α}

lemma pure (a : α) : (Pure.pure a : Parser α).Placeless := fun _ => .pure rfl

lemma expected (wanted : String) : (Parser.expected wanted : Parser α).Placeless := fun _ =>
  .expected wanted

lemma bind {q : α → Parser β} (hp : p.Placeless) (hq : ∀ a, (q a).Placeless) :
    (p >>= q).Placeless := fun k => .bind (hp k) fun a => hq a k

lemma orElse (hp : p.Placeless) (hq : q.Placeless) : (p <|> q).Placeless := fun k =>
  .orElse (hp k) (hq k)

lemma commit (hp : p.Placeless) : p.commit.Placeless := fun k => .commit (hp k)

lemma optional (hp : p.Placeless) : p.optional.Placeless := fun k => by
  have hreply := (hp k).optional
  rwa [show Option.map (fun a : α => a) = fun a => a from funext fun _ => Option.map_id_apply]
    at hreply

lemma sepBy1 {separator : Parser β} (hs : separator.Placeless) (hp : p.Placeless) :
    (Parser.sepBy1 separator p).Placeless := fun k => by
  have hreply := (hs k).sepBy1 (hp k)
  rwa [show List.map (fun a : α => a) = fun a => a from funext fun _ => List.map_id'' (congrFun rfl) _]
    at hreply

end Placeless

end Parser

/-! ## Tokens -/

lemma char_placeless (wanted : Char) : (char wanted).Placeless := fun k c => by
  rw [char, char]
  dsimp only [Cursor.moved]
  cases c.rest with
  | nil => exact .miss (List.cons_ne_nil _ _)
  | cons d rest =>
      dsimp only
      split
      · rw [Nat.add_right_comm]
        exact .done () ⟨c.offset + d.utf8Size, rest⟩
      · exact .miss (List.cons_ne_nil _ _)

/-- What is found before a place, further on. -/
def foundMoved (k : Nat) (found : α × Cursor) : α × Cursor :=
  (found.1, found.2.moved k)

lemma word?_moved (k : Nat) (c : Cursor) : word? (c.moved k) = (word? c).map (foundMoved k) := by
  rw [word?, word?]
  dsimp only [Cursor.moved]
  rw [apply_ite (Option.map (foundMoved k)), Nat.add_right_comm]
  rfl

lemma foundMoved_cons (c : Char) (found : Option (List Char × Cursor)) :
    (found.map (foundMoved k)).map (fun (cs, after) => (c :: cs, after)) =
      (found.map fun (cs, after) => (c :: cs, after)).map (foundMoved k) := by
  cases found <;> rfl

lemma unescapeUntil_moved (stops : Char → Bool) (k offset : Nat) (cs : List Char) :
    unescapeUntil stops (offset + k) cs = (unescapeUntil stops offset cs).map (foundMoved k) := by
  fun_induction unescapeUntil stops offset cs with
  | case1 => rfl
  | case2 => rfl
  | case3 offset c rest ih =>
      rw [unescapeUntil, ← foundMoved_cons, ← ih, Nat.add_right_comm offset k,
        Nat.add_right_comm (offset + 1) k]
  | case4 offset c rest hlone hescape hstop =>
      rw [unescapeUntil, if_pos hstop]
      · rfl
      · exact hlone
      · exact hescape
  | case5 offset c rest hlone hescape hstop ih =>
      rw [unescapeUntil, if_neg hstop, ← foundMoved_cons, ← ih, Nat.add_right_comm offset k]
      · exact hlone
      · exact hescape

lemma unescapeQuoted_moved (quote : Char) (k offset : Nat) (cs : List Char) :
    unescapeQuoted quote (offset + k) cs =
      (unescapeQuoted quote offset cs).map (foundMoved k) := by
  fun_induction unescapeQuoted quote offset cs with
  | case1 => rfl
  | case2 => rfl
  | case3 offset c rest ih =>
      rw [unescapeQuoted, ← foundMoved_cons, ← ih, Nat.add_right_comm offset k,
        Nat.add_right_comm (offset + 1) k]
  | case4 offset rest hlone hescape =>
      rw [unescapeQuoted, if_pos rfl, Nat.add_right_comm offset k]
      · rfl
      · exact hlone
      · exact hescape
  | case5 offset c rest hlone hescape hstop ih =>
      rw [unescapeQuoted, if_neg hstop, ← foundMoved_cons, ← ih, Nat.add_right_comm offset k]
      · exact hlone
      · exact hescape

/-- The failure of a keyword moves along, and says what was wanted if anything was. -/
lemma keyword_miss_moved {words : List String} (hwords : words ≠ []) (k offset : Nat) :
    Reply.Moved k (fun a : String => a) (.miss (wantsAny offset words))
      (.miss (wantsAny (offset + k) words)) := by
  have hall : ∀ ws : List String, ws.map (fun w => Failure.leaf (offset + k) (.text w)) =
      Failure.movedAll k (ws.map fun w => .leaf offset (.text w)) := by
    intro ws
    induction ws with
    | nil => rfl
    | cons w ws ih => rw [List.map_cons, List.map_cons, ih, Failure.movedAll, Failure.moved]
  have hmoved : wantsAny (offset + k) words = (wantsAny offset words).moved k := by
    match words with
    | [] => rfl
    | [w] => rfl
    | w :: w' :: ws => rw [wantsAny, wantsAny, Failure.moved, hall] <;> simp
  rw [hmoved]
  refine .miss ?_
  match words, hwords with
  | [w], _ => exact List.cons_ne_nil _ _
  | w :: w' :: ws, _ => exact List.cons_ne_nil _ _

lemma keyword_placeless {words : List String} (hwords : words ≠ []) :
    (keyword words).Placeless := fun k c => by
  rw [keyword, keyword, word?_moved]
  cases word? c with
  | none => exact keyword_miss_moved hwords k c.offset
  | some found =>
      dsimp only [Option.map_some, foundMoved]
      split
      · exact .done found.1 found.2
      · exact keyword_miss_moved hwords k c.offset

lemma escapedText_placeless (stops : List Char) (wanted : String) :
    (escapedText stops wanted).Placeless := fun k c => by
  rw [escapedText, escapedText, Cursor.finish_moved]
  dsimp only [Cursor.moved]
  rw [unescapeUntil_moved]
  rcases unescapeUntil stops.contains c.offset c.rest with _ | ⟨_ | ⟨d, ds⟩, after⟩
  · exact .fatal (List.cons_ne_nil _ _)
  · exact .miss (List.cons_ne_nil _ _)
  · exact .done (String.ofList (d :: ds)) after

lemma quotedText_placeless (quote : Char) (opening closing : String) :
    (quotedText quote opening closing).Placeless := fun k c => by
  rw [quotedText, quotedText, Cursor.finish_moved]
  dsimp only [Cursor.moved]
  cases c.rest with
  | nil => exact .miss (List.cons_ne_nil _ _)
  | cons first rest =>
      dsimp only
      split
      · rw [Nat.add_right_comm c.offset k, unescapeQuoted_moved quote k]
        rcases unescapeQuoted quote (c.offset + first.utf8Size) rest with _ | ⟨cs, after⟩
        · exact .fatal (List.cons_ne_nil _ _)
        · exact .done (String.ofList cs) after
      · exact .miss (List.cons_ne_nil _ _)

end Estate.Parse
