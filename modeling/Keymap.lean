import Keymap.Drawing.Placement
import Keymap.Main
import Keymap.Proofs.BehaviorsFile
import Keymap.Proofs.BindingTokens
import Keymap.Proofs.BothTrainings
import Keymap.Proofs.ComboFilters
import Keymap.Proofs.CoreReaders
import Keymap.Proofs.CustomLayouts
import Keymap.Proofs.DrawnOrder
import Keymap.Proofs.FamilyLookups
import Keymap.Proofs.HeldHands
import Keymap.Proofs.HoldTapTimings
import Keymap.Proofs.LayerNumbers
import Keymap.Proofs.LetterHands
import Keymap.Proofs.Migration
import Keymap.Proofs.OneShotTargets
import Keymap.Proofs.PartialTimings
import Keymap.Proofs.SentTexts
import Keymap.Proofs.ShiftMorphLegends
import Keymap.Proofs.ShiftedLetters
import Keymap.Proofs.StrictChecks
import Keymap.Proofs.SupersetLayers
import Keymap.Proofs.TextCombos
import Keymap.Proofs.ThumbClusters
import Keymap.Proofs.TrainedBigrams
import Keymap.Proofs.UnplacedKeys
import Keymap.Proofs.WrittenProperties
import Keymap.Proofs.ZmkLabels
