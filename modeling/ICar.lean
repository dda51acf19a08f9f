import ICar.Proof.Stop
import ICar.Proof.Ordres
import ICar.Proof.Frein
import ICar.Proof.Broches
import ICar.Proof.Moteur
import ICar.Proof.Faute
import ICar.Proof.Integrale
import ICar.Proof.Periode
import ICar.Proof.Gaz
import ICar.Proof.Registre
import ICar.Proof.Arret
import ICar.Proof.Curseurs
import ICar.Proof.Dialogue
import ICar.Proof.Volant
import ICar.Proof.Repetition
import ICar.Proof.Retour
import ICar.Proof.Phases
import ICar.Proof.Raffinement
import ICar.Proof.Reprise
import ICar.Proof.Bascule
import ICar.Proof.Cadre
import ICar.Proof.Decalage
import ICar.Proof.AncienDirection
import ICar.Proof.AncienVariateur
import ICar.Proof.Fige
import ICar.Proof.Activite
import ICar.Proof.Flux
import ICar.Proof.Bouclier
