import Keymap.Reading.Tables

namespace Keymap.Standard

def key (name qmk zmk : String) (more : List (String × String) := []) : Field × Document :=
  (name, .record ([(Field.word "qmk", Document.text qmk), (Field.word "zmk", Document.text zmk)] ++
    more.map fun (field, text) => (Field.word field, Document.text text)))

def press (name zmk : String) (more : List (String × String) := []) : Field × Document :=
  key name ("KC_" ++ name) ("&kp " ++ zmk) more

def glyph (icon : String) : String × String :=
  ("display_glyph", "$$mdi:" ++ icon ++ "$$")

def letters : List String :=
  ["A", "B", "C", "D", "E", "F", "G", "H", "I", "J", "K", "L", "M", "N", "O", "P", "Q", "R", "S", "T", "U",
   "V", "W", "X", "Y", "Z"]

def digits : List String :=
  ["0", "1", "2", "3", "4", "5", "6", "7", "8", "9"]

def behavior (name description qmk zmk : String) (params support : List String) :
    Field × Document :=
  (name, .record [
    ("description", description), ("qmk_pattern", qmk), ("zmk_pattern", zmk),
    ("params", .list (params.map .text)), ("firmware_support", .list (support.map .text))])

def board (id name firmware : String) (more : Entries) : Field × Document :=
  (id, .record ([(Field.word "name", Document.text name),
    (Field.word "firmware", Document.text firmware)] ++ more))

def keycodes : Entries :=
  [key "NONE" "KC_NO" "&none",
   key "QK_BOOT" "QK_BOOT" "&bootloader" [("display_name", "DFU")],
   key "QK_RBT" "QK_RBT" "&sys_reset",
   key "TRANS" "KC_TRNS" "&trans" [glyph "chevron-down"],
   key "TRNS" "KC_TRNS" "&trans" [glyph "chevron-down"],
   key "REPEAT" "QK_REP" "&key_repeat" [glyph "repeat-once"]] ++
  (letters.map fun l => press l l) ++
  (digits.map fun d => press d ("N" ++ d)) ++
  [key "NLCK" "KC_NUM_LOCK" "&kp KP_NUM"] ++
  (digits.map fun d => press ("P" ++ d) ("KP_N" ++ d)) ++
  [press "PDOT" "KP_DOT",
   press "PENT" "KP_ENTER",
   press "PPLS" "KP_PLUS",
   press "PMNS" "KP_MINUS",
   press "PAST" "KP_MULTIPLY",
   press "PSLS" "KP_DIVIDE",
   press "PEQL" "KP_EQUAL"] ++
  (["F1", "F2", "F3", "F4", "F5", "F6", "F7", "F8", "F9", "F10", "F11", "F12"].map fun f => press f f) ++
  [press "QUOT" "SQT" [("char", "'")],
   press "DQUO" "DQT" [("char", "\"")],
   key "LABK" "KC_LT" "&kp LT" [("char", "<")],
   key "RABK" "KC_GT" "&kp GT" [("char", ">")],
   press "COMM" "COMMA" [("char", ",")],
   press "DOT" "DOT" [("char", ".")],
   press "SLSH" "FSLH" [("char", "/")],
   press "QUES" "QUESTION" [("char", "?")],
   press "BSLS" "BSLH" [("char", "\\")],
   press "SCLN" "SEMI" [("char", ";")],
   press "COLN" "COLON" [("char", ":")],
   press "GRV" "GRAVE" [("char", "`")],
   press "TILD" "TILDE" [("char", "~")],
   press "MINS" "MINUS" [("char", "-")],
   press "UNDS" "UNDERSCORE" [("char", "_")],
   press "EQL" "EQUAL" [("char", "=")],
   press "PLUS" "PLUS" [("char", "+")],
   press "LBRC" "LBKT" [("display_name", "["), ("char", "[")],
   press "RBRC" "RBKT" [("display_name", "]"), ("char", "]")],
   press "LCBR" "LBRC" [("display_name", "\x7b"), ("char", "\x7b")],
   press "RCBR" "RBRC" [("display_name", "\x7d"), ("char", "\x7d")],
   press "LPRN" "LPAR" [("char", "(")],
   press "RPRN" "RPAR" [("char", ")")],
   press "EXLM" "EXCL" [("char", "!")],
   press "AT" "AT" [("char", "@")],
   press "HASH" "HASH" [("char", "#")],
   press "DLR" "DOLLAR" [("char", "$")],
   press "PERC" "PERCENT" [("char", "%")],
   press "CIRC" "CARET" [("char", "^")],
   press "AMPR" "AMPERSAND" [("char", "&")],
   press "ASTR" "ASTERISK" [("char", "*")],
   press "PIPE" "PIPE" [("char", "|")],
   press "LSFT" "LSHFT" [glyph "apple-keyboard-shift"],
   press "RSFT" "RSHFT" [glyph "apple-keyboard-shift"],
   press "LCTL" "LCTRL" [glyph "apple-keyboard-control"],
   press "RCTL" "RCTRL" [glyph "apple-keyboard-control"],
   press "LALT" "LALT" [glyph "apple-keyboard-option"],
   press "RALT" "RALT" [glyph "apple-keyboard-option"],
   press "LGUI" "LGUI" [glyph "apple-keyboard-command"],
   press "RGUI" "RGUI" [glyph "apple-keyboard-command"],
   press "ALGR" "RALT",
   press "LEFT" "LEFT" [glyph "arrow-left-bold"],
   press "DOWN" "DOWN" [glyph "arrow-down-bold"],
   press "UP" "UP" [glyph "arrow-up-bold"],
   press "RGHT" "RIGHT" [glyph "arrow-right-bold"],
   press "HOME" "HOME",
   press "END" "END",
   press "PGUP" "PG_UP" [glyph "transfer-up"],
   press "PGDN" "PG_DN" [glyph "transfer-down"],
   press "ENT" "ENTER" [glyph "keyboard-return"],
   press "ESC" "ESC" [("display_glyph", "ESC")],
   press "BSPC" "BSPC" [glyph "backspace"],
   press "DEL" "DEL" [glyph "backspace-reverse-outline"],
   press "TAB" "TAB" [glyph "keyboard-tab", ("char", "\t")],
   press "SPC" "SPACE" [glyph "keyboard-space", ("char", " ")],
   press "INS" "INS",
   key "UNDO" "LGUI(KC_Z)" "&kp LG(Z)" [("display_name", "Undo")],
   key "REDO" "SGUI(KC_Z)" "&kp LG(LS(Z))" [("display_name", "Redo")],
   key "CUT" "LGUI(KC_X)" "&kp LG(X)" [("display_name", "Cut")],
   key "COPY" "LGUI(KC_C)" "&kp LG(C)" [("display_name", "Copy")],
   key "PASTE" "LGUI(KC_V)" "&kp LG(V)" [("display_name", "Paste")],
   press "CAPS" "CAPS" [glyph "apple-keyboard-caps"],
   key "CAPS_WORD" "CW_TOGG" "&caps_word" [("display_name", "CapWord"), glyph "format-letter-case-upper"],
   press "SCRL" "SCROLLLOCK",
   press "PSCR" "PRINTSCREEN",
   press "PAUS" "PAUSE_BREAK",
   press "APP" "K_APP",
   press "MPLY" "C_PLAY_PAUSE" [glyph "play-pause"],
   press "MSTP" "C_STOP" [glyph "stop"],
   press "MNXT" "C_NEXT" [glyph "skip-next"],
   press "MPRV" "C_PREV" [glyph "skip-previous"],
   press "VOLU" "C_VOL_UP" [glyph "volume-plus"],
   press "VOLD" "C_VOL_DN" [glyph "volume-minus"],
   press "MUTE" "C_MUTE" [glyph "volume-mute"],
   key "RM_TOGG" "RM_TOGG" "" [glyph "lightbulb"],
   key "RM_NEXT" "RM_NEXT" "" [("display_name", "Mode")],
   key "RM_HUEU" "RM_HUEU" "" [("display_name", "Hue+")],
   key "RM_SATU" "RM_SATU" "" [("display_name", "Sat+")],
   key "RM_VALU" "RM_VALU" "" [("display_name", "Val+")],
   key "BT_SEL_0" "" "&bt BT_SEL 0" [("display_name", "BT 0")],
   key "BT_SEL_1" "" "&bt BT_SEL 1" [("display_name", "BT 1")],
   key "BT_SEL_2" "" "&bt BT_SEL 2" [("display_name", "BT 2")],
   key "BT_SEL_3" "" "&bt BT_SEL 3" [("display_name", "BT 3")],
   key "BT_SEL_4" "" "&bt BT_SEL 4" [("display_name", "BT 4")],
   key "BT_CLR" "" "&bt BT_CLR" [("display_glyph", "BT Clr")],
   key "BT_NXT" "" "&bt BT_NXT" [("display_name", "BT Next")],
   key "BT_PRV" "" "&bt BT_PRV" [("display_name", "BT Prev")],
   key "MAGIC" "QK_AREP" "&none" [("display_name", "Magic"), glyph "auto-fix"]]

def specialKeycodes : Entries :=
  [key "NONE" "KC_NO" "&none" [("description", "No key action")],
   key "DFU" "QK_BOOT" "&bootloader" [("description", "Bootloader key")],
   key "TRANS" "KC_TRNS" "&trans" [("description", "Transparent (pass through to lower layer)")]]

def behaviors : Entries :=
  [behavior "hrm" "Homerow mod (hold for modifier, tap for key)"
     "\x7bmod\x7d_T(KC_\x7bkey\x7d)" "&hrm \x7bmod\x7d \x7bkey\x7d" ["mod", "key"] ["qmk", "zmk"],
   behavior "lt" "Layer-tap (hold for layer, tap for key)"
     "LT(\x7blayer\x7d, KC_\x7bkey\x7d)" "&lt \x7blayer\x7d \x7bkey\x7d" ["layer", "key"] ["qmk", "zmk"],
   behavior "mt" "Mod-tap (hold for modifier, tap for key) without chordal hold"
     "\x7bmod\x7d_T(KC_\x7bkey\x7d)" "&mt \x7bmod\x7d \x7bkey\x7d" ["mod", "key"] ["qmk", "zmk"],
   behavior "bt" "Bluetooth control (ZMK-only)"
     "KC_NO" "&bt BT_\x7baction\x7d" ["action"] ["zmk"],
   behavior "ALGR_T" "AltGr mod-tap (hold for AltGr, tap for key)"
     "ALGR_T(KC_\x7bkey\x7d)" "&mt RALT \x7bkey\x7d" ["key"] ["qmk", "zmk"],
   behavior "df" "Set default layer (persistent layer switch)"
     "DF(\x7blayer\x7d)" "&to \x7blayer\x7d" ["layer"] ["qmk", "zmk"],
   behavior "osl" "One-shot layer (sticky layer in ZMK)"
     "OSL(\x7blayer\x7d)" "&sl \x7blayer\x7d" ["layer"] ["qmk", "zmk"],
   behavior "sm" "Shift-morph (shift produces different key instead of normal shifted output)"
     "SM_\x7bbase_key\x7d_\x7bshifted_key\x7d" "&sm_\x7bbase_key\x7d_\x7bshifted_key\x7d"
     ["base_key", "shifted_key"] ["qmk", "zmk"]]

def boards : Entries :=
  [board "skeletyl" "Bastard Keyboards Skeletyl" "qmk"
     [("qmk_keyboard", "bastardkb/skeletyl/promicro"), ("layout_size", "3x5_3")],
   board "lulu" "Boardsource Lulu (RP2040)" "qmk"
     [("qmk_keyboard", "boardsource/lulu/rp2040"), ("layout_size", "custom_58_from_3x6"), ("extra_layers", .list ["GAME"])],
   board "lily58" "Lily58 Rev1" "qmk"
     [("qmk_keyboard", "lily58/rev1"), ("layout_size", "custom_58_from_3x6"), ("extra_layers", .list ["GAME"])],
   board "chocofi" "Chocofi" "zmk"
     [("zmk_shield", "corne"), ("zmk_board", "nice_nano_v2"), ("layout_size", "3x6_3")],
   board "corneish_zen" "Corneish-Zen" "zmk"
     [("zmk_shield", "corneish_zen"), ("layout_size", "3x6_3")],
   board "boaty" "Jels Boaty" "qmk"
     [("qmk_keyboard", "jels/boaty"), ("layout_size", "custom_boaty"), ("keymap_file", "boaty.yaml")],
   board "totem" "GEIGEIGEIST TOTEM" "zmk"
     [("zmk_shield", "totem"), ("zmk_board", "seeeduino_xiao_ble"), ("layout_size", "totem_38")],
   board "ripple" "Ripple (Cosmos Dactyl)" "qmk"
     [("qmk_keyboard", "ripple"), ("layout_size", "3x5_3")]]

def aliasFile : Document :=
  .record [("behaviors", .record behaviors), ("keycodes", .record specialKeycodes)]

def keycodeFile : Document :=
  .record keycodes

def boardFile : Document :=
  .record [("boards", .record boards)]

def allKeycodes : Entries :=
  assignAll keycodes specialKeycodes

end Keymap.Standard
