import GrowthOrder.Command.Session
import GrowthOrder.Proofs.Encoding.RoundTrip
import GrowthOrder.Proofs.Token.Ends
import Mathlib

/-!
# Typed text and the text of a file

A source text comes from a file or is typed. What is typed is cut into lines before it is decoded,
every line gets a line feed, and a byte order mark stays; of a file the mark is taken away and
nothing is added. As long as no line ends the input early, the two texts are the same up to a mark
in front and a line feed behind. Neither is part of a token, so the analysis is the same.
-/
namespace GrowthOrder

/-! ## Lines of bytes and lines of characters -/

section

variable {α : Type} [BEq α] {a x : α} {xs l : List α}

theorem splitOn_append_of_not_mem [LawfulBEq α] (h : a ∉ xs) (ys : List α) :
    (xs ++ ys).splitOn a = (ys.splitOn a).modifyHead (xs ++ ·) := by
  induction xs with
  | nil => cases hys : ys.splitOn a <;> simp [hys]
  | cons y xs ih =>
    obtain ⟨hy, hxs⟩ := not_or.1 (List.mem_cons.not.1 h)
    rw [List.cons_append, List.splitOn_cons_eq_if_modifyHead, if_neg (by simpa using Ne.symm hy),
      ih hxs]
    cases ys.splitOn a <;> rfl

theorem mem_of_mem_splitOn (hl : l ∈ xs.splitOn a) (hx : x ∈ l) : x ∈ xs := by
  induction xs generalizing l with
  | nil =>
    rw [List.splitOn_nil, List.mem_singleton] at hl
    exact hl ▸ hx
  | cons y xs ih =>
    rw [List.splitOn_cons_eq_if_modifyHead] at hl
    split at hl
    · rcases List.mem_cons.1 hl with rfl | hl
      · cases hx
      · exact List.mem_cons_of_mem _ (ih hl hx)
    · cases hsplit : xs.splitOn a with
      | nil => exact absurd hsplit (List.splitOn_ne_nil a xs)
      | cons first rest =>
        rw [hsplit] at hl ih
        rcases List.mem_cons.1 hl with rfl | hl
        · rcases List.mem_cons.1 hx with rfl | hx
          · exact List.mem_cons_self
          · exact List.mem_cons_of_mem _ (ih List.mem_cons_self hx)
        · exact List.mem_cons_of_mem _ (ih (List.mem_cons_of_mem _ hl) hx)

end

namespace Utf8

/-- The bytes of characters. -/
def bytes (cs : List Char) : List UInt8 :=
  cs.flatMap String.utf8EncodeChar

theorem decode?_bytes (cs : List Char) : decode? (bytes cs) = some (String.ofList cs) := by
  have hencode : encode (String.ofList cs) = bytes cs := by
    rw [encode, String.toList_ofList]
    rfl
  rw [← hencode, decode?_encode]

theorem eq_nil_of_bytes {cs : List Char} (h : bytes cs = []) : cs = [] := by
  have hdecoded : decode? [] = some (String.ofList cs) := h ▸ decode?_bytes cs
  exact String.ofList_inj.1 (Option.some.inj (hdecoded.symm.trans (decode?_bytes [])))

/-- A byte below 80 stands for the character with its number and is part of no other. -/
theorem toNat_of_mem_utf8EncodeChar {b : UInt8} {c : Char} (hb : b.toNat < 0x80)
    (h : b ∈ String.utf8EncodeChar c) : c.toNat = b.toNat := by
  have hhigh : ∀ v : Nat, 0x80 ≤ v → v < 0x100 → b ≠ UInt8.ofNat v := by
    rintro v hlow hbyte rfl
    rw [UInt8.toNat_ofNat'] at hb
    omega
  rw [String.utf8EncodeChar.eq_1, Char.toNat_val] at h
  split at h
  · obtain rfl := List.mem_singleton.1 h
    rw [UInt8.toNat_ofNat']
    omega
  · exfalso
    split at h
    · simp only [List.mem_cons, List.not_mem_nil, or_false] at h
      rcases h with h | h <;> exact hhigh _ (by omega) (by omega) h
    · split at h
      · simp only [List.mem_cons, List.not_mem_nil, or_false] at h
        rcases h with h | h | h <;> exact hhigh _ (by omega) (by omega) h
      · simp only [List.mem_cons, List.not_mem_nil, or_false] at h
        rcases h with h | h | h | h <;> exact hhigh _ (by omega) (by omega) h

theorem not_mem_utf8EncodeChar {b : UInt8} {c x : Char} (hb : b.toNat < 0x80)
    (hx : x.toNat = b.toNat) (hc : c ≠ x) : b ∉ String.utf8EncodeChar c := by
  intro h
  have hcode := (toNat_of_mem_utf8EncodeChar hb h).trans hx.symm
  exact hc (Char.toNat_inj.1 hcode)

/-- The bytes of the lines are the lines of the bytes. -/
theorem splitOn_bytes (cs : List Char) : (bytes cs).splitOn 10 = (cs.splitOn '\n').map bytes := by
  induction cs with
  | nil => rfl
  | cons c cs ih =>
    rw [bytes, List.flatMap_cons, List.splitOn_cons_eq_if_modifyHead]
    split
    · next hc =>
      obtain rfl := beq_iff_eq.1 hc
      show (10 :: bytes cs).splitOn 10 = _
      rw [List.splitOn_cons_eq_if_modifyHead, if_pos (beq_self_eq_true _), ih]
      rfl
    · next hc =>
      have hbytes : 10 ∉ String.utf8EncodeChar c :=
        not_mem_utf8EncodeChar (by decide) (show '\n'.toNat = 10 from rfl) (by simpa using hc)
      rw [splitOn_append_of_not_mem hbytes]
      show ((bytes cs).splitOn 10).modifyHead _ = _
      rw [ih]
      cases cs.splitOn '\n' <;> rfl

end Utf8

namespace Encoding

open Utf8 (bytes)

variable {text : String}

/-- Without carriage returns the lines are what stands between the line feeds; only behind the last
one there need not be a line. -/
theorem lines_encode (h : '\r' ∉ text.toList) : lines (Utf8.encode text) =
    ((text.toList.splitOn '\n').map bytes).dropLast ++
      ((text.toList.splitOn '\n').map bytes).getLast?.toList.filter fun line => !line.isEmpty := by
  have hended : ∀ line ∈ ((text.toList.splitOn '\n').map bytes).dropLast,
      line.getLast? ≠ some 13 := by
    intro line hline hlast
    obtain ⟨l, hl, rfl⟩ := List.mem_map.1 (List.mem_of_mem_dropLast hline)
    obtain ⟨c, hc, hbyte⟩ := List.mem_flatMap.1 (List.mem_of_getLast? hlast)
    have hne : c ≠ '\r' := by
      rintro rfl
      exact h (mem_of_mem_splitOn hl hc)
    exact Utf8.not_mem_utf8EncodeChar (by decide) (show '\r'.toNat = 13 from rfl) hne hbyte
  have hsplit : (Utf8.encode text).splitOn 10 = (text.toList.splitOn '\n').map bytes :=
    Utf8.splitOn_bytes text.toList
  unfold lines
  dsimp only
  rw [hsplit, List.map_congr_left fun line hline => if_neg (hended line hline), List.map_id']

/-- Lines that do not end the input make up the text between them, with a line feed behind the last
one unless nothing stands there. -/
theorem typed?_lines {ls : List (List Char)} (hne : ls ≠ [])
    (hend : ∀ l ∈ ls, trimmed l ≠ endMarker) :
    ∃ tail, (tail = "" ∨ tail = "\n") ∧
      typed? ((ls.map bytes).dropLast ++
        (ls.map bytes).getLast?.toList.filter fun line => !line.isEmpty) =
      some (String.ofList (['\n'].intercalate ls) ++ tail) := by
  have hline : ∀ l ∈ ls, ∀ rest, typed? (bytes l :: rest) =
      (typed? rest).map fun more => String.ofList l ++ "\n" ++ more := by
    intro l hl rest
    rw [typed?, Utf8.decode?_bytes]
    dsimp only
    rw [String.toList_ofList, if_neg (hend l hl)]
  induction ls with
  | nil => exact absurd rfl hne
  | cons l ls ih =>
    have hfirst := hline l List.mem_cons_self
    cases ls with
    | nil =>
      rw [List.intercalate_singleton]
      cases hempty : (bytes l).isEmpty with
      | true =>
        refine ⟨"", .inl rfl, ?_⟩
        obtain rfl := Utf8.eq_nil_of_bytes (List.isEmpty_iff.1 hempty)
        rfl
      | false =>
        refine ⟨"\n", .inr rfl, ?_⟩
        have hkept : ([bytes l].getLast?.toList.filter fun line => !line.isEmpty) = [bytes l] := by
          simp [hempty]
        show typed? ([bytes l].getLast?.toList.filter fun line => !line.isEmpty) = _
        rw [hkept, hfirst, typed?, Option.map_some, String.append_empty]
    | cons l' ls =>
      obtain ⟨tail, htail, hmore⟩ := ih (List.cons_ne_nil l' ls)
        (fun m hm => hend m (List.mem_cons_of_mem _ hm))
        (fun m hm => hline m (List.mem_cons_of_mem _ hm))
      refine ⟨tail, htail, ?_⟩
      have hlast : ((l :: l' :: ls).map bytes).getLast? = ((l' :: ls).map bytes).getLast? :=
        List.getLast?_cons_cons
      rw [hlast]
      show typed? (bytes l :: (((l' :: ls).map bytes).dropLast ++ _)) = _
      rw [hfirst, hmore, Option.map_some, List.intercalate_cons_cons]
      simp [String.ofList_append, String.append_assoc]

/-- Typed input is the text, with at most a line feed more behind it. -/
theorem decodeTyped?_encode (hreturn : '\r' ∉ text.toList)
    (hend : ∀ line ∈ text.toList.splitOn '\n', trimmed line ≠ endMarker) :
    ∃ tail, (tail = "" ∨ tail = "\n") ∧
      decodeTyped? (Utf8.encode text) = some (text ++ tail) := by
  obtain ⟨tail, htail, htyped⟩ := typed?_lines (List.splitOn_ne_nil '\n' text.toList) hend
  refine ⟨tail, htail, ?_⟩
  rw [decodeTyped?, lines_encode hreturn, htyped, List.intercalate_splitOn, String.ofList_toList]

/-- The text of a UTF-8 file is the whole text, with at most a mark less in front. -/
theorem exists_decode_encode (text : String) :
    ∃ front, (front = "" ∨ front = "\ufeff") ∧ text = front ++ decode (Utf8.encode text) := by
  rw [decode, decodeMarked_encode]
  unfold withoutMark
  split
  · next rest hlist =>
    refine ⟨"\ufeff", .inr rfl, ?_⟩
    rw [← String.toList_inj, hlist, String.toList_append]
    simp
  · exact ⟨"", .inl rfl, by simp⟩

/-- Both readings of the same bytes have the same tokens. -/
theorem tokenize_decode_encode (g : Grammar) {tail : String} (htail : tail = "" ∨ tail = "\n") :
    g.tokenize (text ++ tail) = g.tokenize (decode (Utf8.encode text)) := by
  have hback : g.tokenize (text ++ tail) = g.tokenize text := by
    rcases htail with rfl | rfl
    · rw [String.append_empty]
    · exact g.tokenize_append_newline text
  obtain ⟨front, hfront, htext⟩ := exists_decode_encode text
  calc g.tokenize (text ++ tail)
      = g.tokenize text := hback
    _ = g.tokenize (front ++ decode (Utf8.encode text)) := by rw [← htext]
    _ = g.tokenize (decode (Utf8.encode text)) := by
      rcases hfront with rfl | rfl
      · rw [String.empty_append]
      · exact g.tokenize_mark _

end Encoding

/-! ## A session with the text typed and in a file -/

namespace FileTree

theorem contains_of_read {t : FileTree} {path : String} {bytes : List UInt8}
    (h : t.read path = .ok bytes) : t.contains path = true := by
  unfold contains
  unfold read at h
  cases hfind : t.find path with
  | error e =>
    rw [hfind] at h
    cases h
  | ok entry => rfl

end FileTree

namespace Session

variable {s : Session} {path : String} {bytes : List UInt8}

/-- An action of the host inside a run that may stop. -/
theorem run_bind_lift {ε α β : Type} (x : StateM Session α) (f : α → ExceptT ε (StateM Session) β)
    (s : Session) :
    (do f (← (liftM x : ExceptT ε (StateM Session) α)) : ExceptT ε (StateM Session) β).run s =
      (f (x s).1).run (x s).2 := rfl

theorem source_none {text : String} (h : Encoding.decodeTyped? s.input = some text) :
    (host.source none).run s = (.ok text, s) := by
  have hinput : host.input s = (s.input, s) := rfl
  unfold Host.source
  dsimp only
  rw [run_bind_lift, hinput, h]
  rfl

theorem source_some (h : s.files.read path = .ok bytes) :
    (host.source (some path)).run s = (.ok (Encoding.decode bytes), s) := by
  have hcontains : host.contains path s = (true, s) := by
    rw [← FileTree.contains_of_read h]
    rfl
  have hread : host.read path s = (.ok bytes, s) := by
    rw [← h]
    rfl
  unfold Host.source Host.demand
  dsimp only
  rw [bind_assoc, run_bind_lift, hcontains]
  dsimp only
  rw [if_pos rfl, pure_bind, run_bind_lift, hread]
  rfl

/-- A text without carriage returns and without a line that ends the input can be typed or be read
from a file. Both give a text, and in every dialect both texts have the same tokens, the same tree
and the same report. -/
theorem source_agree (s : Session) (path text : String) (hinput : s.input = Utf8.encode text)
    (hfile : s.files.read path = .ok (Utf8.encode text)) (hreturn : '\r' ∉ text.toList)
    (hend : ∀ line ∈ text.toList.splitOn '\n', Encoding.trimmed line ≠ Encoding.endMarker) :
    ∃ typed filed, (host.source none).run s = (.ok typed, s) ∧
      (host.source (some path)).run s = (.ok filed, s) ∧
      ∀ d : Dialect, d.tokenize typed = d.tokenize filed ∧
        SyntaxTree.ofTokens d (d.tokenize typed) = SyntaxTree.ofTokens d (d.tokenize filed) ∧
        d.analyze typed = d.analyze filed := by
  obtain ⟨tail, htail, htyped⟩ := Encoding.decodeTyped?_encode hreturn hend
  refine ⟨text ++ tail, Encoding.decode (Utf8.encode text), source_none (hinput ▸ htyped),
    source_some hfile, fun d => ?_⟩
  have htokens : d.tokenize (text ++ tail) = d.tokenize (Encoding.decode (Utf8.encode text)) :=
    Encoding.tokenize_decode_encode d.grammar htail
  refine ⟨htokens, by rw [htokens], ?_⟩
  rw [Dialect.analyze, Dialect.analyze, htokens]

/-- A mark in front and no line feed behind: the two texts differ at both ends. -/
theorem source_agree_marked :
    ∃ s : Session, s.input = Utf8.encode "\ufeffx = 'a" ∧
      s.files.read "a.c" = .ok (Utf8.encode "\ufeffx = 'a") ∧
      (host.source none).run s = (.ok "\ufeffx = 'a\n", s) ∧
      (host.source (some "a.c")).run s = (.ok "x = 'a", s) ∧
      ∀ d : Dialect, d.analyze "\ufeffx = 'a\n" = d.analyze "x = 'a" := by
  let s : Session :=
    { files := { files := [(["a.c"], Utf8.encode "\ufeffx = 'a")] },
      input := Utf8.encode "\ufeffx = 'a" }
  have hfile : s.files.read "a.c" = .ok (Utf8.encode "\ufeffx = 'a") := by decide +kernel
  have htyped : Encoding.decodeTyped? (Utf8.encode "\ufeffx = 'a") = some "\ufeffx = 'a\n" := by
    decide +kernel
  have hfiled : Encoding.decode (Utf8.encode "\ufeffx = 'a") = "x = 'a" := by decide +kernel
  obtain ⟨typed, filed, hnone, hsome, hagree⟩ := source_agree s "a.c" "\ufeffx = 'a" rfl hfile
    (by decide) (by decide)
  have hnone' := source_none (s := s) htyped
  have hsome' := source_some hfile
  rw [hfiled] at hsome'
  obtain rfl : typed = _ := Except.ok.inj (congrArg Prod.fst (hnone.symm.trans hnone'))
  obtain rfl : filed = _ := Except.ok.inj (congrArg Prod.fst (hsome.symm.trans hsome'))
  exact ⟨s, rfl, hfile, hnone, hsome, fun d => (hagree d).2.2⟩

end Session

end GrowthOrder
