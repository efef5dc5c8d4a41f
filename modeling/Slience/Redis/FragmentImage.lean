import Slience.Redis.Fragment

/-!
# The commands for the slots

Where the given command is the image of `MGET`, `DEL` or `MSET`, each sub-command is the image of
the same command over the keys of its slot, in their order, and it fills its block.
-/

namespace Slience

namespace Redis

open Logstream (decimalDigit decimalText)

section Numbers

theorem uintLen_eq (n : ℕ) : uintLen n = (numeral decimalDigit 10 n).length := by
  induction n using Nat.strong_induction_on with
  | _ n ih =>
      rw [uintLen]
      split
      · next h => rw [numeral_of_lt h]; rfl
      · next h =>
          rw [numeral_of_le (by omega), ih (n / 10) (by omega), List.length_append]
          rfl

theorem hiItoa_eq (s : Text) {n : ℕ} (h : n ≠ 0) : hiItoa s n = numeral decimalDigit 10 n := by
  rw [hiItoa, if_neg h]
  clear s
  induction n using Nat.strong_induction_on with
  | _ n ih =>
      rw [itoaDigits, if_neg (by omega), List.reverse_cons]
      have hdigit : UInt8.ofNat (n % 10 + 48) = decimalDigit (n % 10) := by
        rw [Nat.add_comm]
        rfl
      rw [hdigit]
      rcases Nat.lt_or_ge n 10 with hn | hn
      · rw [show n / 10 = 0 by omega, itoaDigits, if_pos (by omega), numeral_of_lt hn,
          Nat.mod_eq_of_lt hn]
        rfl
      · rw [ih (n / 10) (by omega) (by omega), numeral_of_le hn]

theorem numeral_ne_nil (n : ℕ) : numeral decimalDigit 10 n ≠ [] := by
  rcases Nat.lt_or_ge n 10 with hn | hn
  · rw [numeral_of_lt hn]
    exact List.cons_ne_nil _ _
  · rw [numeral_of_le hn]
    exact List.append_ne_nil_of_right_ne_nil _ (List.cons_ne_nil _ _)

theorem takeWhile_append_cons {p : Byte → Bool} {l t : Text} {x : Byte}
    (h : ∀ b ∈ l, p b = true) (hx : p x = false) : (l ++ x :: t).takeWhile p = l := by
  rw [List.takeWhile_append_of_pos h, List.takeWhile_cons, hx, if_neg Bool.false_ne_true,
    List.append_nil]

end Numbers

/-- How many arguments belong to a key. -/
def CmdType.width (type : CmdType) : ℕ := if type = .reqRedisMset then 2 else 1

/-- The name that the sub-commands have. -/
def CmdType.verb : CmdType → Text
  | .reqRedisMget => lit "mget"
  | .reqRedisDel => lit "del"
  | .reqRedisMset => lit "mset"
  | _ => []

theorem shape_spec {type : CmdType} {shape : FragmentShape} (h : fragmentShape type = some shape) :
    shape.name = crlf ++ encodeBulk type.verb ∧
      shape.rest = 3 + (encodeBulk type.verb).length ∧
      (∀ n, shape.nargs n = type.width * n + 1) ∧ shape.perKey = 7 - 2 * type.width ∧
      (encodeBulk type.verb).length ≤ 10 := by
  unfold fragmentShape at h
  split at h
  · cases h
    exact ⟨by decide +kernel, by decide +kernel, fun n ↦ by simp [mgetShape, CmdType.width], rfl,
      by decide +kernel⟩
  · cases h
    exact ⟨by decide +kernel, by decide +kernel, fun n ↦ by simp [delShape, CmdType.width], rfl,
      by decide +kernel⟩
  · cases h
    exact ⟨by decide +kernel, by decide +kernel, fun n ↦ by simp [msetShape, CmdType.width], rfl,
      by decide +kernel⟩
  · cases h

/-- A key that was found, with the arguments from it on. -/
structure FoundKey where
  pos : KeyPos
  args : List Text
  deriving DecidableEq

namespace FoundKey

/-- The arguments that belong to the key. -/
def item (type : CmdType) (x : FoundKey) : List Text := x.args.take type.width

def key (x : FoundKey) : Text := keyOf x.args

def slot (x : FoundKey) : ℕ := keyHashSlot x.key

/-- The bytes behind the key that belong to it. -/
def remain (type : CmdType) (x : FoundKey) : ℕ :=
  if type = .reqRedisMset then 2 + bulklen (keyOf x.args.tail).length else 0

def subKey (type : CmdType) (x : FoundKey) : SubKey := ⟨x.pos.start, x.pos.stop, x.remain type⟩

/-- What the key adds to the size of its sub-command. -/
def clen (type : CmdType) (x : FoundKey) : ℕ :=
  x.key.length + uintLen x.key.length + x.remain type

/-- The bytes of the key and its arguments in a command. -/
def image (type : CmdType) (x : FoundKey) : Text := (x.item type).flatMap encodeBulk

/-- The key is at its place in the command, it is not empty, and it has its arguments. -/
structure Cut (type : CmdType) (cmd : Text) (x : FoundKey) : Prop where
  located : Located cmd x.pos x.args
  ne_nil : x.key ≠ []
  width_le : type.width ≤ x.args.length

variable {type : CmdType} {cmd : Text} {x : FoundKey}

/-- Behind a key the length of its value is found. -/
theorem remainLen_eq {k : KeyPos} {a v : Text} {rest : List Text}
    (h : Located cmd k (a :: v :: rest)) (hv : v.length < 2 ^ 31) :
    remainLen cmd k.stop = some (2 + bulklen v.length) := by
  have hbehind : cmd.drop (k.stop + 1) = [10, 36] ++ (numeral decimalDigit 10 v.length ++
      (13 :: 10 :: (v ++ crlf ++ rest.flatMap encodeBulk))) := by
    obtain ⟨hstop, hdrop⟩ := h
    obtain ⟨-, -, hrest⟩ := CmdParse.getElem_of_drop (CmdParse.drop_of_append hdrop)
    rw [hstop, hrest, List.flatMap_cons, encodeBulk, encodeLine, decimalText_natCast]
    simp [crlf]
  have hdigits : ∀ b ∈ numeral decimalDigit 10 v.length, isDigit b = true :=
    fun b hb ↦ CmdParse.isDigit_numeral hb
  have hskipped : (cmd.drop (k.stop + 1)).takeWhile (fun b ↦ !isDigit b) = [10, 36] := by
    cases hnumeral : numeral decimalDigit 10 v.length with
    | nil => exact absurd hnumeral (numeral_ne_nil _)
    | cons d ds =>
        rw [hnumeral] at hbehind hdigits
        have hd : (!isDigit d) = false := by rw [hdigits d List.mem_cons_self]; rfl
        have hskip : ∀ b ∈ ([10, 36] : Text), (!isDigit b) = true := by
          intro b hb
          rcases List.mem_pair.mp hb with rfl | rfl
          · rfl
          · rfl
        rw [hbehind, List.cons_append]
        exact takeWhile_append_cons (p := fun b ↦ !isDigit b) hskip hd
  have htaken : ((cmd.drop (k.stop + 1)).drop 2).takeWhile isDigit =
      numeral decimalDigit 10 v.length := by
    rw [hbehind]
    exact takeWhile_append_cons hdigits (by decide)
  have hlen : (numeral decimalDigit 10 v.length).length ≤ 10 :=
    length_numeral_le (by omega) (by omega) (by omega)
  simp only [remainLen, hskipped]
  rw [if_neg]
  · rw [List.length_cons, List.length_cons, List.length_nil, htaken,
      CmdParse.foldl_addDigit (by omega), bulklen, countDigits_eq]
    congr 1
    omega
  · rw [hbehind]
    simp

theorem copyBytes_eq {start : ℕ} {a t : Text} (h : cmd.drop start = a ++ t) (ha : a ≠ []) :
    copyBytes cmd start a.length = some a := by
  have hlen := congrArg List.length h
  have hpos : 0 < a.length := List.length_pos_iff.mpr ha
  rw [List.length_drop, List.length_append] at hlen
  rw [copyBytes, if_pos (by omega), h, List.take_left]

/-- The key alone, or the key with its value. -/
theorem Cut.args_eq (h : x.Cut type cmd) :
    (type ≠ .reqRedisMset ∧ ∃ rest, x.args = x.key :: rest) ∨
      type = .reqRedisMset ∧ ∃ v rest, x.args = x.key :: v :: rest := by
  have hwidth := h.width_le
  by_cases hmset : type = .reqRedisMset
  · rw [CmdType.width, if_pos hmset] at hwidth
    refine Or.inr ⟨hmset, ?_⟩
    match hargs : x.args, hwidth with
    | a :: v :: rest, _ => exact ⟨v, rest, by rw [key, hargs]; rfl⟩
  · rw [CmdType.width, if_neg hmset] at hwidth
    refine Or.inl ⟨hmset, ?_⟩
    match hargs : x.args, hwidth with
    | a :: rest, _ => exact ⟨rest, by rw [key, hargs]; rfl⟩

/-- Where the key ends. -/
theorem Cut.stop_eq (h : x.Cut type cmd) : x.pos.stop = x.pos.start + x.key.length := by
  have hlocated := h.located
  rcases h.args_eq with ⟨-, rest, hargs⟩ | ⟨-, v, rest, hargs⟩
  · rw [hargs] at hlocated
    exact hlocated.1
  · rw [hargs] at hlocated
    exact hlocated.1

/-- What is copied of the command is what the key and its arguments take behind the length of the
key. -/
theorem Cut.copy_eq (h : x.Cut type cmd) :
    ∃ bytes, keyBytes type cmd (x.subKey type) = some bytes ∧
      x.image type = [36] ++ numeral decimalDigit 10 x.key.length ++ crlf ++ bytes := by
  have hlocated := h.located
  rw [keyBytes, subKey, h.stop_eq, Nat.add_sub_cancel_left]
  rcases h.args_eq with ⟨hmset, rest, hargs⟩ | ⟨hmset, v, rest, hargs⟩
  · rw [hargs] at hlocated
    refine ⟨x.key ++ crlf, ?_, ?_⟩
    · rw [if_neg hmset, copyBytes_eq hlocated.2 h.ne_nil]
      rfl
    · rw [image, item, CmdType.width, if_neg hmset, hargs]
      simp [encodeBulk, encodeLine, decimalText_natCast]
  · rw [hargs] at hlocated
    have hdrop : cmd.drop x.pos.start = (x.key ++ (crlf ++ encodeBulk v)) ++
        rest.flatMap encodeBulk := by
      rw [hlocated.2, List.flatMap_cons]
      simp [crlf]
    have hlen : x.key.length + x.remain type = (x.key ++ (crlf ++ encodeBulk v)).length := by
      rw [remain, if_pos hmset, hargs, List.length_append, List.length_append, length_encodeBulk]
      rfl
    refine ⟨x.key ++ (crlf ++ encodeBulk v), ?_, ?_⟩
    · rw [if_pos hmset, hlen, copyBytes_eq hdrop (List.append_ne_nil_of_left_ne_nil h.ne_nil _)]
    · rw [image, item, CmdType.width, if_pos hmset, hargs]
      simp [encodeBulk, encodeLine, decimalText_natCast]

/-- A key with its arguments is written behind the others, where there is room. -/
theorem Cut.writeKey_eq (h : x.Cut type cmd) (numStr : Text) {size : ℕ} {out : Text}
    (hfit : out.length + (x.image type).length ≤ size) :
    writeKey type cmd size (numStr, out) (x.subKey type) =
      some (numeral decimalDigit 10 x.key.length, out ++ x.image type) := by
  obtain ⟨bytes, hbytes, himage⟩ := h.copy_eq
  have hpos : x.key.length ≠ 0 := by
    rw [Ne, List.length_eq_zero_iff]
    exact h.ne_nil
  rw [himage] at hfit ⊢
  have hnum : hiItoa numStr ((x.subKey type).stop - (x.subKey type).start) =
      numeral decimalDigit 10 x.key.length := by
    rw [subKey, h.stop_eq, Nat.add_sub_cancel_left, hiItoa_eq _ hpos]
  simp only [writeKey, hnum, hbytes, Option.bind_eq_bind, Option.bind_some, put_eq hfit]

/-- The keys of a sub-command with their arguments are written one behind the other. -/
theorem foldlM_writeKey {xs : List FoundKey} (hcut : ∀ x ∈ xs, x.Cut type cmd) {size : ℕ}
    (numStr : Text) {out : Text} (hfit : out.length + (xs.flatMap (image type)).length ≤ size) :
    ∃ numStr', (xs.map (subKey type)).foldlM (writeKey type cmd size) (numStr, out) =
      some (numStr', out ++ xs.flatMap (image type)) := by
  induction xs generalizing numStr out with
  | nil => exact ⟨numStr, by simp⟩
  | cons x xs ih =>
      rw [List.flatMap_cons, List.length_append] at hfit
      have hx := (hcut x List.mem_cons_self).writeKey_eq numStr
        (show out.length + (x.image type).length ≤ size by omega)
      have hroom : (out ++ x.image type).length + (xs.flatMap (image type)).length ≤ size := by
        rw [List.length_append]
        omega
      obtain ⟨numStr', hrest⟩ := ih (fun y hy ↦ hcut y (List.mem_cons_of_mem _ hy))
        (numeral decimalDigit 10 x.key.length) hroom
      refine ⟨numStr', ?_⟩
      rw [List.map_cons, List.foldlM_cons, hx, List.flatMap_cons, ← List.append_assoc, ← hrest]
      rfl

/-- The size that is added for a key, with the bytes for each, is the size of its image. -/
theorem Cut.clen_eq (h : x.Cut type cmd) :
    x.clen type + (7 - 2 * type.width) = (x.image type).length := by
  rcases h.args_eq with ⟨hmset, rest, hargs⟩ | ⟨hmset, v, rest, hargs⟩
  · rw [clen, remain, image, item, CmdType.width, if_neg hmset, if_neg hmset, hargs, uintLen_eq]
    simp [length_encodeBulk, bulklen, countDigits_eq]
    omega
  · rw [clen, remain, image, item, CmdType.width, if_pos hmset, if_pos hmset, hargs, uintLen_eq]
    simp [length_encodeBulk, bulklen, countDigits_eq, keyOf]
    omega

/-- The sub-command over these keys after the loop that gathers them. -/
def gathered (type : CmdType) (xs : List FoundKey) (i : ℕ) : SubCommand :=
  ⟨i, xs.length, (xs.map (clen type)).sum % 2 ^ 32, xs.map (subKey type), []⟩

/-- The sub-commands of the slots after it. -/
def subCommands (type : CmdType) (l : List FoundKey) (i : ℕ) : Option SubCommand :=
  if shard slot l i = [] then none else some (gathered type (shard slot l i) i)

theorem Cut.addKey_eq (h : x.Cut type cmd) (hsize : cmd.length < 2 ^ 31) (l : List FoundKey) :
    addKey type cmd (subCommands type l) x.pos = some (subCommands type (l ++ [x])) := by
  have hremain : keyRemain type cmd x.pos.stop = some (x.remain type) := by
    rw [keyRemain]
    rcases h.args_eq with ⟨hmset, rest, hargs⟩ | ⟨hmset, v, rest, hargs⟩
    · rw [if_neg hmset, remain, if_neg hmset]
    · have hlocated := h.located
      rw [hargs] at hlocated
      have hv : v.length < 2 ^ 31 := by
        have hlen := congrArg List.length hlocated.2
        simp only [List.length_drop, List.length_append, List.length_cons, List.flatMap_cons,
          encodeBulk, encodeLine] at hlen
        omega
      rw [if_pos hmset, remainLen_eq hlocated hv, remain, if_pos hmset, hargs]
      rfl
  have hslot : keyHashSlot (x.pos.text cmd) = x.slot := by
    rw [h.located.text_eq]
    rfl
  have hlen : x.pos.stop - x.pos.start = x.key.length := by
    rw [h.stop_eq, Nat.add_sub_cancel_left]
  have hsub : (subCommands type l x.slot).getD ⟨x.slot, 0, 0, [], []⟩ =
      gathered type (shard slot l x.slot) x.slot := by
    rw [subCommands]
    split
    · next hnil => rw [hnil]; rfl
    · rfl
  simp only [addKey, hremain, hslot, hlen, hsub, gathered, Option.bind_eq_bind, Option.bind_some]
  congr 1
  funext i
  by_cases hi : i = x.slot
  · subst hi
    rw [Function.update_self, subCommands, shard_concat, if_pos rfl,
      if_neg (List.append_ne_nil_of_right_ne_nil _ (List.cons_ne_nil _ _))]
    simp only [gathered, List.length_append, List.length_singleton, List.map_append, List.map_cons,
      List.map_nil, List.sum_append, List.sum_singleton, Option.some.injEq, SubCommand.mk.injEq,
      true_and, and_true, subKey]
    rw [clen]
    omega
  · rw [Function.update_of_ne hi, subCommands, subCommands, shard_concat, if_neg (Ne.symm hi)]

theorem foldlM_addKey {l : List FoundKey} (hcut : ∀ x ∈ l, x.Cut type cmd)
    (hsize : cmd.length < 2 ^ 31) :
    (l.map pos).foldlM (addKey type cmd) (fun _ ↦ none) = some (subCommands type l) := by
  induction l using List.reverseRecOn with
  | nil => rfl
  | append_singleton l x ih =>
      rw [List.map_append, List.foldlM_append, ih fun y hy ↦ hcut y (List.mem_append_left _ hy)]
      have hx := (hcut x (List.mem_append_right _ (List.mem_singleton_self x))).addKey_eq hsize l
      simp [hx]

theorem Cut.length_item (h : x.Cut type cmd) : (x.item type).length = type.width := by
  rw [item, List.length_take, Nat.min_eq_left h.width_le]

/-- The command over the keys of a slot. -/
def command (type : CmdType) (xs : List FoundKey) : List Text :=
  type.verb :: xs.flatMap (item type)

theorem length_command {xs : List FoundKey} (hcut : ∀ x ∈ xs, x.Cut type cmd) :
    (command type xs).length = type.width * xs.length + 1 := by
  rw [command, List.length_cons]
  congr 1
  induction xs with
  | nil => rfl
  | cons x xs ih =>
      rw [List.flatMap_cons, List.length_append, ih fun y hy ↦ hcut y (List.mem_cons_of_mem _ hy),
        (hcut x List.mem_cons_self).length_item, List.length_cons, Nat.mul_succ, Nat.add_comm]

theorem sum_clen {xs : List FoundKey} (hcut : ∀ x ∈ xs, x.Cut type cmd) :
    (xs.map (clen type)).sum + (7 - 2 * type.width) * xs.length =
      (xs.flatMap (image type)).length := by
  induction xs with
  | nil => simp
  | cons x xs ih =>
      have hx := (hcut x List.mem_cons_self).clen_eq
      have hxs := ih fun y hy ↦ hcut y (List.mem_cons_of_mem _ hy)
      rw [List.map_cons, List.sum_cons, List.flatMap_cons, List.length_append, List.length_cons,
        Nat.mul_succ]
      omega

theorem commandImage_command (xs : List FoundKey) : commandImage (command type xs) =
    [42] ++ numeral decimalDigit 10 (command type xs).length ++ (crlf ++ encodeBulk type.verb) ++
      xs.flatMap (image type) := by
  have hflat : (xs.flatMap (item type)).flatMap encodeBulk = xs.flatMap (image type) := by
    rw [List.flatMap_assoc]
    rfl
  rw [commandImage, encodeLine, decimalText_natCast, ← hflat, command]
  simp

/-- The sub-command over these keys as it is sent. -/
def sub (type : CmdType) (xs : List FoundKey) (i : ℕ) : SubCommand :=
  ⟨i, (command type xs).length, (commandImage (command type xs)).length, xs.map (subKey type),
    commandImage (command type xs)⟩

theorem buildSub_eq {shape : FragmentShape} (hshape : fragmentShape type = some shape)
    {xs : List FoundKey} (hcut : ∀ x ∈ xs, x.Cut type cmd)
    (hsize : (xs.flatMap (image type)).length < 2 ^ 31) (numStr : Text) (i : ℕ) :
    ∃ numStr', buildSub type shape cmd numStr (gathered type xs i) =
      some (numStr', sub type xs i) := by
  obtain ⟨hname, hrest, hnargs, hperKey, hverb⟩ := shape_spec hshape
  have hsum := sum_clen hcut
  have hcount := length_command hcut
  have hlen : (commandImage (command type xs)).length =
      3 + (numeral decimalDigit 10 (command type xs).length).length +
        (encodeBulk type.verb).length + (xs.flatMap (image type)).length := by
    rw [commandImage_command]
    simp only [List.length_append, crlf, List.length_cons, List.length_nil]
    omega
  have hwidth : type.width = 1 ∨ type.width = 2 := by
    rw [CmdType.width]
    split
    · exact Or.inr rfl
    · exact Or.inl rfl
  have hnarg : (command type xs).length ≠ 0 ∧ (command type xs).length < 10 ^ 10 := by
    rw [hcount]
    rcases hwidth with h | h <;> rw [h] at hsum ⊢ <;> omega
  have hdigits : (numeral decimalDigit 10 (command type xs).length).length ≤ 10 :=
    length_numeral_le (by omega) (by omega) hnarg.2
  have hclen : ((xs.map (clen type)).sum % 2 ^ 32 + shape.perKey * xs.length +
      (shape.rest + (numeral decimalDigit 10 (command type xs).length).length)) % 2 ^ 32 =
        (commandImage (command type xs)).length := by
    rw [hperKey, hrest, hlen]
    omega
  have himage : commandImage (command type xs) = _ := commandImage_command xs
  rw [← hname] at himage
  have hsplit : (commandImage (command type xs)).length =
      ([42] ++ numeral decimalDigit 10 (command type xs).length ++ shape.name).length +
        (xs.flatMap (image type)).length := by
    rw [himage]
    exact List.length_append
  have hhead : put (commandImage (command type xs)).length []
      ([42] ++ numeral decimalDigit 10 (command type xs).length ++ shape.name) =
        some ([42] ++ numeral decimalDigit 10 (command type xs).length ++ shape.name) := by
    rw [put_eq, List.nil_append]
    rw [List.length_nil]
    omega
  obtain ⟨numStr', hfold⟩ := foldlM_writeKey hcut
    (numeral decimalDigit 10 (command type xs).length) hsplit.ge
  refine ⟨numStr', ?_⟩
  simp only [buildSub, gathered, hnargs, ← hcount, hiItoa_eq _ hnarg.1, hclen, hhead, hfold,
    Option.bind_eq_bind, Option.bind_some]
  rw [← himage, Nat.sub_self, List.replicate_zero, List.append_nil]
  rfl

theorem buildSubs_eq {shape : FragmentShape} (hshape : fragmentShape type = some shape)
    {l : List FoundKey} (hcut : ∀ x ∈ l, x.Cut type cmd)
    (hsize : (l.flatMap (image type)).length < 2 ^ 31) (is : List ℕ) (numStr : Text) :
    buildSubs type shape cmd (subCommands type l) is numStr =
      some ((is.filter fun i ↦ !(shard slot l i).isEmpty).map fun i ↦
        sub type (shard slot l i) i) := by
  induction is generalizing numStr with
  | nil => rfl
  | cons i is ih =>
      by_cases hi : shard slot l i = []
      · have hnone : subCommands type l i = none := by rw [subCommands, if_pos hi]
        rw [buildSubs, hnone, List.filter_cons_of_neg (by simpa using hi)]
        exact ih numStr
      · have hcutShard : ∀ x ∈ shard slot l i, x.Cut type cmd :=
          fun x hx ↦ hcut x (mem_shard.mp hx).1
        have hle : ((shard slot l i).flatMap (image type)).length ≤
            (l.flatMap (image type)).length :=
          (List.filter_sublist.flatMap (image type)).length_le
        obtain ⟨numStr', hsub⟩ := buildSub_eq hshape hcutShard (by omega) numStr i
        have hsome : subCommands type l i = some (gathered type (shard slot l i) i) := by
          rw [subCommands, if_neg hi]
        rw [buildSubs, hsome, List.filter_cons_of_pos (by simpa using hi)]
        simp only [hsub, ih numStr', Option.bind_eq_bind, Option.bind_some, List.map_cons]

theorem commandPreFragment_eq {shape : FragmentShape} (hshape : fragmentShape type = some shape)
    {l : List FoundKey} (hcut : ∀ x ∈ l, x.Cut type cmd) (hsize : cmd.length < 2 ^ 31)
    (himage : (l.flatMap (image type)).length < 2 ^ 31) (narg : ℕ) :
    commandPreFragment cmd ⟨type, narg, l.map pos⟩ =
      some (if (usedShards slot redisClusterSlots l).length = 1 then
          ⟨(l.map slot).getLastD 0, [], []⟩
        else ⟨(l.map slot).getLastD 0, l.map slot,
          (usedShards slot redisClusterSlots l).map fun i ↦ sub type (shard slot l i) i⟩) := by
  have hslots : (l.map pos).map (fun kp ↦ keyHashSlot (kp.text cmd)) = l.map slot := by
    rw [List.map_map]
    refine List.map_congr_left fun x hx ↦ ?_
    change keyHashSlot (x.pos.text cmd) = x.slot
    rw [(hcut x hx).located.text_eq]
    rfl
  simp only [commandPreFragment, hshape, foldlM_addKey hcut hsize, buildSubs_eq hshape hcut himage,
    hslots, Option.bind_eq_bind, Option.bind_some]
  rw [List.length_map, usedShards]
  split <;> rfl

end FoundKey

/-! ## The parts of a command -/

/-- Keys and values in pairs. -/
def inPairs : List Text → List (List Text)
  | a :: b :: l => [a, b] :: inPairs l
  | _ => []

/-- The arguments of a command, key by key. -/
def CmdType.items (type : CmdType) (args : List Text) : List (List Text) :=
  if type = .reqRedisMset then inPairs args else args.map ([·])

def itemSlot (item : List Text) : ℕ := keyHashSlot (keyOf item)

/-- The command over the items of a slot. -/
def slotCommand (type : CmdType) (items : List (List Text)) (i : ℕ) : List Text :=
  type.verb :: (shard itemSlot items i).flatten

/-- How a command over these items is cut: not at all where one slot has all of them, and
otherwise into one command for each slot. -/
structure Splits (type : CmdType) (items : List (List Text)) (f : Fragments) : Prop where
  slotNum_eq : f.slotNum = (items.map itemSlot).getLastD 0
  whole : (∀ item ∈ items, itemSlot item = f.slotNum) → f.commands = []
  fragSeq_eq : f.commands ≠ [] → f.fragSeq = items.map itemSlot
  parts : (∃ item ∈ items, itemSlot item ≠ f.slotNum) →
    f.commands.map (fun sub ↦ (sub.slotNum, sub.command)) =
      (usedShards itemSlot redisClusterSlots items).map fun i ↦
        (i, commandImage (slotCommand type items i))
  clen_eq : ∀ sub ∈ f.commands, sub.clen = sub.command.length

theorem exists_foundKeys {cmd : Text} {keys : List KeyPos} {found : List (List Text)}
    (h : List.Forall₂ (Located cmd) keys found) :
    ∃ l : List FoundKey, l.map FoundKey.pos = keys ∧ l.map FoundKey.args = found ∧
      ∀ x ∈ l, Located cmd x.pos x.args := by
  induction h with
  | nil => exact ⟨[], rfl, rfl, by simp⟩
  | @cons k a keys found hk _ ih =>
      obtain ⟨l, hpos, hargs, hall⟩ := ih
      exact ⟨⟨k, a⟩ :: l, by simp [hpos], by simp [hargs], by simpa [hk] using hall⟩

theorem map_take_suffixes (l : List Text) : (suffixes l).map (·.take 1) = l.map ([·]) := by
  induction l with
  | nil => rfl
  | cons a l ih => rw [suffixes, List.map_cons, ih]; rfl

theorem map_take_pairSuffixes {l : List Text} (h : l.length % 2 = 0) :
    (pairSuffixes l).map (·.take 2) = inPairs l ∧ (inPairs l).flatten = l ∧
      ∀ a ∈ pairSuffixes l, 2 ≤ a.length := by
  induction l using pairSuffixes.induct with
  | case1 => exact ⟨rfl, rfl, by simp [pairSuffixes]⟩
  | case2 a => cases h
  | case3 a b l ih =>
      obtain ⟨hmap, hflat, hlen⟩ := ih (by rw [List.length_cons, List.length_cons] at h; omega)
      refine ⟨?_, ?_, ?_⟩
      · rw [pairSuffixes, List.map_cons, hmap]
        rfl
      · rw [inPairs, List.flatten_cons, hflat]
        rfl
      · simpa [pairSuffixes] using hlen

theorem length_suffixes_pos (l : List Text) : ∀ a ∈ suffixes l, 1 ≤ a.length := by
  induction l with
  | nil => simp [suffixes]
  | cons a l ih => simpa [suffixes] using ih

/-- A command whose arguments are read from a key on. -/
theorem commandKeys_of_class {name : Text} (hother : (typeOf name).cmdClass ≠ .other)
    (hargz : (typeOf name).cmdClass ≠ .argz) (hargeval : (typeOf name).cmdClass ≠ .argeval)
    (args : List Text) :
    commandKeys name args = readArgs (typeOf name) (args.length + 1) .key args := by
  have hne : typeOf name ≠ .unknown := by
    intro h
    rw [h] at hother
    exact hother rfl
  rw [commandKeys, if_neg hne, CmdType.redisArgz_eq, CmdType.redisArgeval_eq,
    decide_eq_false hargz, decide_eq_false hargeval]
  rfl

theorem commandKeys_of_argx {name : Text} (hclass : (typeOf name).cmdClass = .argx)
    (args : List Text) : commandKeys name args = some (suffixes args) := by
  rw [commandKeys_of_class (by simp [hclass]) (by simp [hclass]) (by simp [hclass])]
  exact readArgs_argx hclass args

theorem commandKeys_of_argkvx {name : Text} (hclass : (typeOf name).cmdClass = .argkvx)
    {args : List Text} (heven : args.length % 2 = 0) :
    commandKeys name args = some (pairSuffixes args) := by
  rw [commandKeys_of_class (by simp [hclass]) (by simp [hclass]) (by simp [hclass])]
  exact readArgs_argkvx hclass args (by omega) heven

/-- What is found of a command that can be cut: its items, each at the front of the arguments from
its key on. -/
theorem found_items {name : Text} {args keys : List Text}
    (hshape : (fragmentShape (typeOf name)).isSome) (hkeys : keysOf (name :: args) = some keys)
    (htwo : 2 ≤ keys.length) :
    ∃ found, commandKeys name args = some found ∧ found.map keyOf = keys ∧
      found.map (·.take (typeOf name).width) = (typeOf name).items args ∧
        ((typeOf name).items args).flatten = args ∧
          ∀ a ∈ found, (typeOf name).width ≤ a.length := by
  have heq := keysOf_eq name args
  rw [hkeys] at heq
  obtain ⟨found, hfound, hmap⟩ := Option.map_eq_some_iff.mp heq
  refine ⟨found, hfound, hmap, ?_⟩
  have hargx (hclass : (typeOf name).cmdClass = .argx) (hmset : typeOf name ≠ .reqRedisMset) :
      found.map (·.take (typeOf name).width) = (typeOf name).items args ∧
        ((typeOf name).items args).flatten = args ∧
          ∀ a ∈ found, (typeOf name).width ≤ a.length := by
    rw [commandKeys_of_argx hclass, Option.some.injEq] at hfound
    subst hfound
    rw [CmdType.width, CmdType.items, if_neg hmset, if_neg hmset]
    refine ⟨map_take_suffixes args, ?_, length_suffixes_pos args⟩
    simp [← List.flatMap_def]
  unfold fragmentShape at hshape
  split at hshape
  · next htype => exact hargx (by rw [htype]; rfl) (by rw [htype]; decide)
  · next htype => exact hargx (by rw [htype]; rfl) (by rw [htype]; decide)
  · next htype =>
      have hclass : (typeOf name).cmdClass = .argkvx := by rw [htype]; rfl
      have heven : args.length % 2 = 0 := by
        rw [keysOf, hclass] at hkeys
        rcases args with _ | ⟨key, _ | ⟨value, rest⟩⟩
        · rfl
        · cases hkeys
          exact absurd htwo (by simp)
        · rw [classKeys] at hkeys
          · by_contra hodd
            rw [if_neg hodd] at hkeys
            cases hkeys
          · simp
          · simp
      rw [commandKeys_of_argkvx hclass heven, Option.some.injEq] at hfound
      subst hfound
      rw [CmdType.width, CmdType.items, if_pos htype, if_pos htype]
      exact map_take_pairSuffixes heven
  · cases hshape

namespace FoundKey

variable {type : CmdType} {cmd : Text} {x : FoundKey} {l : List FoundKey}

theorem Cut.itemSlot_eq (h : x.Cut type cmd) : itemSlot (x.item type) = x.slot := by
  rcases h.args_eq with ⟨hmset, rest, hargs⟩ | ⟨hmset, v, rest, hargs⟩
  · rw [itemSlot, item, CmdType.width, if_neg hmset, slot, key, hargs]
    rfl
  · rw [itemSlot, item, CmdType.width, if_pos hmset, slot, key, hargs]
    rfl

/-- The keys of a slot give its items. -/
theorem shard_items (hcut : ∀ x ∈ l, x.Cut type cmd) (i : ℕ) :
    shard itemSlot (l.map (item type)) i = (shard slot l i).map (item type) := by
  rw [shard_map, shard, shard]
  congr 1
  refine List.filter_congr fun x hx ↦ ?_
  rw [Function.comp_apply, (hcut x hx).itemSlot_eq]

theorem command_shard (hcut : ∀ x ∈ l, x.Cut type cmd) (i : ℕ) :
    command type (shard slot l i) = slotCommand type (l.map (item type)) i := by
  rw [command, slotCommand, shard_items hcut, List.flatMap_def]

theorem usedShards_items (hcut : ∀ x ∈ l, x.Cut type cmd) (n : ℕ) :
    usedShards itemSlot n (l.map (item type)) = usedShards slot n l := by
  simp only [usedShards, shard_items hcut, List.isEmpty_map]

theorem splits {shape : FragmentShape} (hshape : fragmentShape type = some shape)
    (hcut : ∀ x ∈ l, x.Cut type cmd) (hsize : cmd.length < 2 ^ 31)
    (himage : (l.flatMap (image type)).length < 2 ^ 31) (hne : l ≠ []) (narg : ℕ) :
    ∃ f, commandPreFragment cmd ⟨type, narg, l.map pos⟩ = some f ∧
      Splits type (l.map (item type)) f := by
  have hslots : (l.map (item type)).map itemSlot = l.map slot := by
    rw [List.map_map]
    exact List.map_congr_left fun x hx ↦ (hcut x hx).itemSlot_eq
  have hlast : (l.map slot).getLastD 0 = (l.getLast hne).slot := by
    rw [List.getLastD_eq_getLast?, List.getLast?_map, List.getLast?_eq_some_getLast hne]
    rfl
  have hone := length_usedShards_eq_one_iff (fun x _ ↦ keyHashSlot_lt x.key) (List.getLast_mem hne)
  have hitems : (∀ y ∈ l.map (item type), itemSlot y = (l.getLast hne).slot) ↔
      ∀ x ∈ l, x.slot = (l.getLast hne).slot := by
    constructor
    · intro h x hx
      rw [← (hcut x hx).itemSlot_eq]
      exact h _ (List.mem_map_of_mem hx)
    · intro h y hy
      obtain ⟨x, hx, rfl⟩ := List.mem_map.mp hy
      rw [(hcut x hx).itemSlot_eq]
      exact h x hx
  rw [commandPreFragment_eq hshape hcut hsize himage]
  refine ⟨_, rfl, ?_⟩
  by_cases hwhole : (usedShards slot redisClusterSlots l).length = 1
  · rw [if_pos hwhole]
    refine ⟨by rw [hslots], fun _ ↦ rfl, fun h ↦ absurd rfl h, ?_, by simp⟩
    rintro ⟨y, hy, hother⟩
    rw [hlast] at hother
    exact absurd (hitems.mpr (hone.mp hwhole) y hy) hother
  · rw [if_neg hwhole]
    refine ⟨by rw [hslots], ?_, fun _ ↦ by rw [hslots], ?_, ?_⟩
    · intro h
      rw [hlast] at h
      exact absurd (hone.mpr (hitems.mp h)) hwhole
    · intro _
      rw [List.map_map, usedShards_items hcut]
      refine List.map_congr_left fun i _ ↦ ?_
      rw [Function.comp_apply, sub, command_shard hcut]
    · intro s hs
      simp only [List.mem_map] at hs
      obtain ⟨i, -, rfl⟩ := hs
      rfl

end FoundKey

/-- A command over many keys, from its image: one slot has all of them, or there is a command for
each slot, over its items in their order, which fills its block. -/
theorem commandPreFragment_commandImage {name : Text} {args keys : List Text}
    (h : totlen (name :: args) < 2 ^ 31) (hshape : (fragmentShape (typeOf name)).isSome)
    (hkeys : keysOf (name :: args) = some keys) (htwo : 2 ≤ keys.length) (hne : [] ∉ keys) :
    ∃ parsed f, redisParseCmd (commandImage (name :: args)) = .ok parsed ∧
      commandPreFragment (commandImage (name :: args)) parsed = some f ∧
        Splits (typeOf name) ((typeOf name).items args) f := by
  obtain ⟨shape, hsome⟩ := Option.isSome_iff_exists.mp hshape
  obtain ⟨found, hfound, hmap, hitems, hflat, hwidth⟩ := found_items hshape hkeys htwo
  have hfinds := finds_commandImage h
  rw [hfound] at hfinds
  obtain ⟨poss, hparse, hall⟩ := hfinds.parse
  obtain ⟨l, rfl, rfl, hlocated⟩ := exists_foundKeys hall
  have hcut : ∀ x ∈ l, x.Cut (typeOf name) (commandImage (name :: args)) := by
    intro x hx
    refine ⟨hlocated x hx, ?_, hwidth _ (List.mem_map_of_mem hx)⟩
    intro hnil
    refine hne (hmap ▸ ?_)
    rw [← hnil, FoundKey.key]
    exact List.mem_map_of_mem (List.mem_map_of_mem hx)
  have hitem : l.map (FoundKey.item (typeOf name)) = (typeOf name).items args := by
    rw [← hitems, List.map_map]
    rfl
  have himage : l.flatMap (FoundKey.image (typeOf name)) = args.flatMap encodeBulk := by
    have hmap : l.flatMap (FoundKey.image (typeOf name)) =
        ((l.map (FoundKey.item (typeOf name))).flatten).flatMap encodeBulk := by
      rw [← List.flatMap_def, List.flatMap_assoc]
      rfl
    rw [hmap, hitem, hflat]
  have hlen := length_commandImage (name :: args)
  have hlong : (args.flatMap encodeBulk).length < 2 ^ 31 := by
    rw [commandImage, List.flatMap_cons, List.length_append, List.length_append] at hlen
    omega
  have hnil : l ≠ [] := by
    rintro rfl
    rw [← hmap] at htwo
    simp at htwo
  obtain ⟨f, hf, hsplits⟩ := FoundKey.splits hsome hcut (by omega) (himage ▸ hlong) hnil
    (args.length + 1)
  exact ⟨_, f, hparse, hf, hitem ▸ hsplits⟩

/-! ## The slots of a command -/

/-- Only two classes can have more than one key. -/
theorem length_le_one_of_classKeys {c : CmdClass} (hargx : c ≠ .argx) (hargkvx : c ≠ .argkvx)
    {args keys : List Text} (h : classKeys c args = some keys) : keys.length ≤ 1 := by
  unfold classKeys at h
  split at h
  all_goals first
    | exact absurd rfl hargx
    | exact absurd rfl hargkvx
    | cases h
    | (split at h <;> cases h)
  all_goals simp

/-- A command with more than one key can be cut. -/
theorem fragmentShape_of_keysOf {name : Text} {args keys : List Text}
    (hkeys : keysOf (name :: args) = some keys) (htwo : 2 ≤ keys.length) :
    (fragmentShape (typeOf name)).isSome := by
  have hargx (h : (typeOf name).cmdClass = .argx) : (typeOf name).redisArgx = true := by
    rw [CmdType.redisArgx_eq, h]
    rfl
  have hargkvx (h : (typeOf name).cmdClass = .argkvx) : (typeOf name).redisArgkvx = true := by
    rw [CmdType.redisArgkvx_eq, h]
    rfl
  by_contra hnone
  have hle : keys.length ≤ 1 := by
    refine length_le_one_of_classKeys (fun h ↦ ?_) (fun h ↦ ?_) hkeys
    · have hx := hargx h
      unfold CmdType.redisArgx at hx
      split at hx
      · next htype => exact hnone (by rw [htype]; rfl)
      · next htype => exact hnone (by rw [htype]; rfl)
      · cases hx
    · have hx := hargkvx h
      unfold CmdType.redisArgkvx at hx
      split at hx
      · next htype => exact hnone (by rw [htype]; rfl)
      · cases hx
  omega

section BySlot

variable {σ : Type} (cc : ClusterContext σ) {name : Text} {args : List Text}

theorem commandFormatBySlot_none (h : totlen (name :: args) < 2 ^ 31)
    (hkeys : keysOf (name :: args) = none) :
    ∃ e, commandFormatBySlot cc (commandImage (name :: args)) =
      some (cc.fail redisErrProtocol e) := by
  have hfinds := finds_commandImage h
  have heq := keysOf_eq name args
  rw [hkeys, Option.map_eq_none_iff] at heq
  rw [heq] at hfinds
  obtain ⟨e, he⟩ := hfinds.parse_none
  refine ⟨e, ?_⟩
  rw [commandFormatBySlot, if_neg (by nofun)]
  simp only [he]

/-- A command whose keys are found, up to the test of their number. -/
theorem parse_of_keysOf (h : totlen (name :: args) < 2 ^ 31) {keys : List Text}
    (hkeys : keysOf (name :: args) = some keys) :
    ∃ poss, redisParseCmd (commandImage (name :: args)) =
        .ok ⟨typeOf name, args.length + 1, poss⟩ ∧
      poss.map (·.text (commandImage (name :: args))) = keys := by
  have hfinds := finds_commandImage h
  have heq := keysOf_eq name args
  rw [hkeys] at heq
  obtain ⟨found, hfound, hmap⟩ := Option.map_eq_some_iff.mp heq
  rw [hfound] at hfinds
  obtain ⟨poss, hparse, hall⟩ := hfinds.parse
  exact ⟨poss, hparse, (texts_eq hall).trans hmap⟩

theorem commandFormatBySlot_nil (h : totlen (name :: args) < 2 ^ 31)
    (hkeys : keysOf (name :: args) = some []) :
    commandFormatBySlot cc (commandImage (name :: args)) =
      some (cc.fail redisErrOther
        (lit "No keys in command(must have keys for redis cluster mode)")) := by
  obtain ⟨poss, hparse, hposs⟩ := parse_of_keysOf h hkeys
  rw [List.map_eq_nil_iff] at hposs
  subst hposs
  rw [commandFormatBySlot, if_neg (by nofun)]
  simp only [hparse]

theorem commandFormatBySlot_singleton (h : totlen (name :: args) < 2 ^ 31) {key : Text}
    (hkeys : keysOf (name :: args) = some [key]) :
    commandFormatBySlot cc (commandImage (name :: args)) =
      some (cc, some (typeOf name, ⟨keyHashSlot key, [], []⟩)) := by
  obtain ⟨poss, hparse, hposs⟩ := parse_of_keysOf h hkeys
  obtain ⟨kp, rfl, rfl⟩ := List.map_eq_singleton_iff.mp hposs
  rw [commandFormatBySlot, if_neg (by nofun)]
  simp only [hparse]

theorem commandFormatBySlot_many (h : totlen (name :: args) < 2 ^ 31) {keys : List Text}
    (hkeys : keysOf (name :: args) = some keys) (htwo : 2 ≤ keys.length) (hne : [] ∉ keys) :
    ∃ f, commandFormatBySlot cc (commandImage (name :: args)) =
        some (cc, some (typeOf name, f)) ∧
      Splits (typeOf name) ((typeOf name).items args) f := by
  obtain ⟨poss, hparse, hposs⟩ := parse_of_keysOf h hkeys
  obtain ⟨parsed, f, hparsed, hf, hsplits⟩ :=
    commandPreFragment_commandImage h (fragmentShape_of_keysOf hkeys htwo) hkeys htwo hne
  rw [hparse] at hparsed
  cases hparsed
  refine ⟨f, ?_, hsplits⟩
  have hlen : 2 ≤ poss.length := by
    rw [← hposs, List.length_map] at htwo
    exact htwo
  obtain ⟨kp, kp', rest, rfl⟩ : ∃ kp kp' rest, poss = kp :: kp' :: rest := by
    rcases poss with _ | ⟨kp, _ | ⟨kp', rest⟩⟩
    · simp at hlen
    · simp at hlen
    · exact ⟨kp, kp', rest, rfl⟩
  rw [commandFormatBySlot, if_neg (by nofun)]
  simp only [hparse, hf, Option.map_some]

/-- Any command, from its image: it is refused, has no keys, goes to the slot of its key, or is
cut for the slots of its keys, into commands over their items that fill their blocks. -/
theorem commandFormatBySlot_commandImage (h : totlen (name :: args) < 2 ^ 31) :
    (keysOf (name :: args) = none → ∃ e, commandFormatBySlot cc (commandImage (name :: args)) =
      some (cc.fail redisErrProtocol e)) ∧
    (keysOf (name :: args) = some [] → commandFormatBySlot cc (commandImage (name :: args)) =
      some (cc.fail redisErrOther
        (lit "No keys in command(must have keys for redis cluster mode)"))) ∧
    (∀ key, keysOf (name :: args) = some [key] →
      commandFormatBySlot cc (commandImage (name :: args)) =
        some (cc, some (typeOf name, ⟨keyHashSlot key, [], []⟩))) ∧
    ∀ keys, keysOf (name :: args) = some keys → 2 ≤ keys.length → [] ∉ keys →
      ∃ f, commandFormatBySlot cc (commandImage (name :: args)) =
          some (cc, some (typeOf name, f)) ∧
        Splits (typeOf name) ((typeOf name).items args) f :=
  ⟨commandFormatBySlot_none cc h, commandFormatBySlot_nil cc h,
    fun _ ↦ commandFormatBySlot_singleton cc h, fun _ ↦ commandFormatBySlot_many cc h⟩

/-- Two keys in different slots. -/
theorem commandFormatBySlot_commandImage_mget :
    ∃ f, commandFormatBySlot ⟨none, 0, 5, ()⟩ (commandImage [lit "MGET", lit "a", lit "b"]) =
        some (⟨none, 0, 5, ()⟩, some (typeOf (lit "MGET"), f)) ∧
      Splits (typeOf (lit "MGET")) ((typeOf (lit "MGET")).items [lit "a", lit "b"]) f :=
  (commandFormatBySlot_commandImage ⟨none, 0, 5, ()⟩
      (show totlen [lit "MGET", lit "a", lit "b"] < 2 ^ 31 by decide +kernel)).2.2.2
    [lit "a", lit "b"] (by decide +kernel) (by decide) (by decide)

end BySlot

end Redis

end Slience
